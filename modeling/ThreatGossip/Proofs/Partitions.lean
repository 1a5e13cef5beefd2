import ThreatGossip.Proofs.Rounds
/-!
Partitions that heal. Once every address is up and answers at once, and all nodes are peers of each
other, one round of each node brings all of them to the same state, whatever happened before, if no
peer is quarantined and none counts as offline when the round of its node begins. A peer that has
been silent for too long counts as offline and is sent nothing, so a partition that outlasts five
minutes need not heal by itself.
-/
namespace ThreatGossip

open Json (Document)
open Relation (ReflTransGen)

/-- A round of one node: at what time it runs, and how its peers are drawn. -/
structure Turn where
  id : NodeId
  time : Millis
  policy : Policy
  draws : List Nat

namespace Network

/-- The network at another time. -/
def timed (net : Network) (now : Millis) : Network := { net with now }

/-- The wall clock is set, and the node runs a round to its end. -/
def turn (net : Network) (t : Turn) : Network :=
  match net.node? t.id with
  | some n => ((net.timed t.time).round n t.policy t.draws none).1
  | none => net.timed t.time

def turns (net : Network) (ts : List Turn) : Network := ts.foldl turn net

/-- Nothing keeps the nodes apart: every address is up and answers at once, and every node has every
other one on record, at an address that the other one answers. -/
structure Healed (net : Network) : Prop where
  up : ∀ address e, net.endpoints.get? address = some e → e.down = false ∧ e.delay = 0
  registered : ∀ a b n, net.node? a = some n → (net.node? b).isSome → b ≠ a →
    ∃ p e, n.peers.get? b = some p ∧ net.endpoints.get? p.address = some e ∧
      e.responder = .node b

/-- No entry of any roster is quarantined. -/
def Trusting (net : Network) : Prop :=
  ∀ a n b p, net.node? a = some n → n.peers.get? b = some p → p.standing ≠ .quarantined

/-- The node whose turn it is draws as many peers as it has. -/
def Wide (net : Network) (t : Turn) : Prop :=
  ∀ n, net.node? t.id = some n → n.peers.list.length ≤ t.policy.fanout

/-- No other node counts as offline with the node whose turn it is. -/
def InTouch (net : Network) (t : Turn) : Prop :=
  ∀ n b p, net.node? t.id = some n → (net.node? b).isSome → n.peers.get? b = some p →
    p.standingAt t.time ≠ .offline

/-- Every node is in touch with the others when its turn comes. -/
def StayInTouch : Network → List Turn → Prop
  | _, [] => True
  | net, t :: ts => net.InTouch t ∧ (net.turn t).StayInTouch ts

/-- The node has no peer that it trusts so little as to quarantine it. -/
def Trusts (net : Network) (id : NodeId) : Prop :=
  ∀ n b p, net.node? id = some n → n.peers.get? b = some p → ¬p.trust < Trust.quarantinedBelow

section Places

variable {net net' : Network} {id : NodeId}

theorem SamePlaces.isSome (h : SamePlaces net net') (id : NodeId) :
    (net'.node? id).isSome = (net.node? id).isSome := by
  simpa [parts] using congrArg Option.isSome (congrFun h.addresses id)

theorem Healed.mono (h : net.Healed) (places : SamePlaces net net') : net'.Healed where
  up := places.endpoints ▸ h.up
  registered := by
    intro a b n' here there other
    obtain ⟨n, known, same⟩ := node?_of_parts (congrFun places.addresses a) here
    obtain ⟨p, e, found, endpoint, responder⟩ :=
      h.registered a b n known (places.isSome b ▸ there) other
    obtain ⟨p', found', address⟩ := Roster.get?_of_parts same found
    exact ⟨p', e, found', places.endpoints ▸ address ▸ endpoint, responder⟩

theorem Trusts.mono (h : net.Trusts id)
    (same : net'.parts Peer.terms id = net.parts Peer.terms id) : net'.Trusts id := by
  intro n' b p' here found
  obtain ⟨n, known, terms⟩ := node?_of_parts same here
  obtain ⟨p, found, same⟩ := Roster.get?_of_parts terms.symm found
  have trust : p.trust = p'.trust := congrArg Prod.snd same
  exact trust ▸ h n b p known found

theorem Wide.mono {t : Turn} (h : net.Wide t) (places : SamePlaces net net') : net'.Wide t := by
  intro n' here
  obtain ⟨n, known, same⟩ := node?_of_parts (congrFun places.addresses t.id) here
  exact le_of_eq_of_le (Roster.length_list_of_parts Peer.address same) (h n known)

/-- In a healed network a peer of a node is met at every time. -/
theorem Healed.meets (h : net.Healed) {n : Node} (here : net.node? n.id = some n) {b : NodeId}
    (there : (net.node? b).isSome) (other : b ≠ n.id) (timeout : Nat) :
    ∃ p, n.peers.get? b = some p ∧
      ∀ q : Peer, q.id = b → q.address = p.address → Course.Meets net n q timeout := by
  obtain ⟨p, e, found, endpoint, responder⟩ := h.registered n.id b n here there other
  obtain ⟨m, found'⟩ := Option.isSome_iff_exists.mp there
  obtain ⟨p', e', back, -, -⟩ :=
    h.registered b n.id m found' (Option.isSome_iff_exists.mpr ⟨n, here⟩) other.symm
  obtain ⟨up, undelayed⟩ := h.up _ e endpoint
  refine ⟨p, found, ?_⟩
  rintro q rfl address
  refine ⟨⟨e, ?_, responder, undelayed ▸ Nat.zero_le _⟩, other, ?_, m.peers.parts Peer.address, ?_,
    ?_⟩
  · rw [address, endpoint?, endpoint, Option.filter_some, up]
    rfl
  · exact Roster.contains_iff.mpr ⟨p, found⟩
  · rw [Network.parts, found']
    rfl
  · rw [Roster.parts, back]
    rfl

/-- A peer that is neither quarantined nor offline is drawn, if enough are. -/
theorem mem_select {n : Node} {b : NodeId} {p : Peer} {policy : Policy} {draws : List Nat}
    {now : Millis} (known : n.peers.get? b = some p) (wide : n.peers.list.length ≤ policy.fanout)
    (trusted : ¬p.trust < Trust.quarantinedBelow) (heard : p.standingAt now ≠ .offline) :
    p.refresh now ∈ (n.select policy draws now).2 := by
  have refreshed : (n.peers.refreshAll now).get? b = some (p.refresh now) := by
    rw [Roster.get?_refreshAll, known]
    rfl
  have selectable : (p.refresh now).standing.selectable = true :=
    Standing.selectable_of_ne (mt (p.standingAt_eq_quarantined_iff now).mp trusted) heard
  have length : (n.peers.refreshAll now).list.length = n.peers.list.length :=
    Roster.length_list_of_parts Peer.address (Roster.parts_refreshAll fun _ => rfl)
  refine mem_draw ?_ (List.mem_filter.mpr ⟨Roster.mem_list_of_get? refreshed, selectable⟩)
  exact le_trans (List.length_filter_le _ _) (length ▸ wide)

/-- In the first five minutes after the epoch everybody is in touch. -/
theorem stayInTouch_of_early {ts : List Turn} (early : ∀ t ∈ ts, t.time.toNat ≤ offlineAfter)
    (net : Network) : net.StayInTouch ts := by
  induction ts generalizing net with
  | nil => trivial
  | cons t ts ih =>
      obtain ⟨first, others⟩ := List.forall_mem_cons.mp early
      exact ⟨fun _ _ p _ _ _ => p.standingAt_ne_offline first, ih others _⟩

theorem draw_nil {α : Type} : ∀ (n : Nat) (draws : List Nat), draw n draws ([] : List α) = []
  | 0, _ => rfl
  | _ + 1, _ => rfl

/-- A node whose peers are all out of reach only brings their standings up to date. -/
theorem node?_turn_of_deserted (turn : Turn) {n : Node} (here : net.node? turn.id = some n)
    (deserted : (n.peers.refreshAll turn.time).selectable = []) (id : NodeId) :
    (net.turn turn).node? id =
      if id = n.id then some { n with peers := n.peers.refreshAll turn.time }
      else net.node? id := by
  have nobody : (n.select turn.policy turn.draws turn.time).2 = [] := by
    change draw turn.policy.fanout turn.draws (n.peers.refreshAll turn.time).selectable = []
    rw [deserted]
    exact draw_nil _ _
  have silent : ((net.timed turn.time).startRound n turn.policy turn.draws 0).2 = [] :=
    List.eq_nil_iff_forall_not_mem.mpr fun f member => by
      obtain ⟨p, m, drawn, -⟩ := mem_startRound.mp member
      have drawn : p ∈ (n.select turn.policy turn.draws turn.time).2 := drawn
      rw [nobody] at drawn
      nomatch drawn
  unfold Network.turn
  simp only [here]
  rw [round_eq, silent, List.mergeSort_nil]
  exact node?_setNode _ _ id

end Places

end Network

namespace Course

open Network (Healed Trusts Wide InTouch StayInTouch)

variable {c : Course} {s : Fleet}

/-- What a turn does in a healed network: every node gains what the one whose turn it is had. -/
theorem Mirrors.turn (h : c.Mirrors s) (turn : Turn) : ∃ d t, Stretch turn.id c s d t ∧
    d.net = c.net.turn turn ∧
    (c.net.Healed → c.net.Trusts turn.id → c.net.Wide turn → c.net.InTouch turn →
      ∀ n b, c.net.node? turn.id = some n → (c.net.node? b).isSome →
        t.Gained b n.snapshot) := by
  have clock : Stretch turn.id c s { c with net := c.net.timed turn.time } s :=
    ⟨.single (.wait turn.time), .refl, h.elsewhere rfl h.responders, subset_rfl, ⟨rfl, rfl⟩,
      fun _ _ => rfl⟩
  unfold Network.turn
  cases here : c.net.node? turn.id with
  | none => exact ⟨_, s, clock, rfl, fun _ _ _ _ _ _ found => nomatch found⟩
  | some n =>
      have name := h.named here
      have has : Has { c with net := c.net.timed turn.time } n := h.has_of_node? here
      obtain ⟨d, t, round, net, gains⟩ := clock.mirrors.round has turn.policy turn.draws
      have stretch := clock.trans (name ▸ round)
      refine ⟨d, t, stretch, net, fun healed trusts wide inTouch n' b found there => ?_⟩
      obtain rfl := Option.some.inj found
      by_cases other : b = n.id
      · exact stretch.gained h ⟨n, h.has_iff.mpr has, other.symm, le_refl _⟩
      · obtain ⟨p, known, meets⟩ :=
          (healed.mono clock.places).meets has there other turn.policy.timeout
        have own := ((h.rosters n has) b p known).own
        have drawn : _ ∈ (n.select turn.policy turn.draws turn.time).2 :=
          Network.mem_select known (wide n here) (trusts n b p here known)
            (inTouch n b p here there known)
        have gained := gains _ drawn (meets _ own rfl)
        rw [← own]
        exact gained

/-- Turn after turn, every node gains what each of those had whose turn it was. -/
theorem Mirrors.turns (h : c.Mirrors s) {ts : List Turn} (once : (ts.map Turn.id).Nodup)
    (healed : c.net.Healed) (trusts : ∀ turn ∈ ts, c.net.Trusts turn.id)
    (wide : ∀ turn ∈ ts, c.net.Wide turn) (inTouch : c.net.StayInTouch ts) :
    ∃ (d : Course) (t : Fleet), ReflTransGen Fleet.Traffic s t ∧ d.Mirrors t ∧
      d.net = c.net.turns ts ∧
      ∀ turn ∈ ts, ∀ n b, c.net.node? turn.id = some n → (c.net.node? b).isSome →
        t.Gained b n.snapshot := by
  induction ts generalizing c s with
  | nil => exact ⟨c, s, .refl, h, rfl, fun _ member => absurd member List.not_mem_nil⟩
  | cons turn ts ih =>
      obtain ⟨first_trusts, others_trust⟩ := List.forall_mem_cons.mp trusts
      obtain ⟨first_wide, others_wide⟩ := List.forall_mem_cons.mp wide
      obtain ⟨fresh, once⟩ := List.nodup_cons.mp once
      obtain ⟨d, t, first, net, gains⟩ := h.turn turn
      have gains := gains healed first_trusts first_wide inTouch.1
      -- Only the node whose turn it was has changed its trust, and its turn does not come again.
      have others_trust : ∀ later ∈ ts, d.net.Trusts later.id := fun later member =>
        (others_trust later member).mono <| first.terms later.id fun same =>
          fresh (same ▸ List.mem_map_of_mem member)
      obtain ⟨e, u, rest, mirrors, nets, later⟩ := ih first.mirrors once
        (healed.mono first.places) others_trust
        (fun later member => (others_wide later member).mono first.places) (net ▸ inTouch.2)
      refine ⟨e, u, first.traffic.trans rest, mirrors, ?_, List.forall_mem_cons.mpr ⟨?_, ?_⟩⟩
      · rw [nets, net]
        rfl
      · intro n b here there
        obtain ⟨m, has, name, below⟩ := gains n b here there
        obtain ⟨last, there, same, grown⟩ := (first.mirrors.sound.invariant.continues rest
          mirrors.sound.faithful).grown (first.mirrors.sound.invariant.present m has)
        exact ⟨last, there, same.trans name, le_trans below grown⟩
      · intro turn' member n b here there
        have has : s.Has n := h.has_iff.mpr (h.has_of_node? here)
        obtain ⟨m, now, same, grown⟩ :=
          (first.continues h).grown (h.sound.invariant.present n has)
        have here : d.net.node? turn'.id = some m := by
          rw [← h.named here, ← same]
          exact first.mirrors.has_iff.mp now
        obtain ⟨last, final, name, above⟩ :=
          later turn' member m b here (first.places.isSome b ▸ there)
        exact ⟨last, final, name, le_trans grown above⟩

/-- A partition that has healed converges. Whatever the course of a network of new nodes was, once
every address is up and answers at once, all nodes are peers of each other and nobody is
quarantined, one round of each node in any order brings all of them to the same threats, rules and
metrics, and to one digest of the threats; nothing that any of them had is lost. Each node draws all
its peers, and none of these counts as offline with it when its turn comes. -/
theorem healed_partition_converges {ids : List NodeId} {start : Millis} (run : Reached ids start c)
    (healed : c.net.Healed) (trusting : c.net.Trusting) {ts : List Turn}
    (once : (ts.map Turn.id).Nodup)
    (everyone : ∀ id, (c.net.node? id).isSome → id ∈ ts.map Turn.id)
    (wide : ∀ turn ∈ ts, c.net.Wide turn) (inTouch : c.net.StayInTouch ts) :
    (∀ id n, c.net.node? id = some n → ∃ m, (c.net.turns ts).node? id = some m) ∧
    (∀ i j n m, c.net.node? i = some n → (c.net.turns ts).node? j = some m →
      n.snapshot ≤ m.snapshot) ∧
    ∀ i j a b, (c.net.turns ts).node? i = some a → (c.net.turns ts).node? j = some b →
      a.threats.sameState Document.alike b.threats = true ∧ a.rules = b.rules ∧
        a.metrics.sameState b.metrics = true ∧ a.rules.toList = b.rules.toList ∧
        a.metrics.value = b.metrics.value ∧ a.digest.root = b.digest.root := by
  obtain ⟨s, h⟩ := run.mirrored
  have trusts : ∀ turn ∈ ts, c.net.Trusts turn.id := by
    intro turn _ n b p here known low
    have settled := ((h.rosters n (h.has_of_node? here)) b p known).settled
    exact trusting turn.id n b p here known (settled.mpr low)
  obtain ⟨d, t, steps, mirrors, net, gains⟩ := h.turns once healed trusts wide inTouch
  have inv := h.sound.invariant
  have continues := inv.continues steps mirrors.sound.faithful
  have present {m : Node} {j : NodeId} (final : (c.net.turns ts).node? j = some m) : t.Has m :=
    mirrors.has_iff.mpr (mirrors.has_of_node? (net ▸ final))
  -- Every node had its turn, and then every other one gained what it had.
  have spread : ∀ n m, s.Has n → t.Has m → n.snapshot ≤ m.snapshot := by
    intro n m has final
    have here : c.net.node? n.id = some n := h.has_iff.mp has
    obtain ⟨first, there, name⟩ := continues.names m final
    have there : (c.net.node? m.id).isSome :=
      Option.isSome_iff_exists.mpr ⟨first, name ▸ h.has_iff.mp there⟩
    obtain ⟨turn, member, same⟩ :=
      List.mem_map.mp (everyone n.id (Option.isSome_iff_exists.mpr ⟨n, here⟩))
    obtain ⟨m', final', name', above⟩ := gains turn member n m.id (same ▸ here) there
    obtain rfl := final'.unique final name'
    exact above
  have below : ∀ a b, t.Has a → t.Has b → a.snapshot ≤ b.snapshot := by
    intro a b ha hb
    refine continues.below b.snapshot (fun m old => ?_) a (continues.invariant.present a ha)
    obtain ⟨-, -, now, here, -, held⟩ := inv.past m old
    exact le_trans held (spread now b here hb)
  refine ⟨fun id n here => ?_, fun i j n m here final => ?_, fun i j a b first second => ?_⟩
  · have has : s.Has n := h.has_iff.mpr (h.has_of_node? here)
    obtain ⟨m, there, same, -⟩ := continues.grown (inv.present n has)
    refine ⟨m, ?_⟩
    rw [← net, ← h.named here, ← same]
    exact mirrors.has_iff.mp there
  · exact spread n m (h.has_iff.mpr (h.has_of_node? here)) (present final)
  · have ha := present first
    have hb := present second
    exact mirrors.sound.showing.agree continues.invariant ha hb
      (fun w member d live => (mirrors.sound.travels w member d live).carried.1.alike_self)
      (below a b ha hb) (below b a hb ha)

section Sample

/-- Two nodes that know each other and stand still; one of them has written. -/
def apart : Course where
  net := (((((start ["a", "b"] 0).net.listen "a:1" (.node "a")).listen "b:1" (.node "b")).setNode
    (Network.acquaintance "a" "b" "b:1")).setNode (Network.acquaintance "b" "a" "a:1")).setNode
      { Network.acquaintance "a" "b" "b:1" with threats := Fleet.firstWrite }
  flights := ∅
  answers := ∅

/-- One round of each, the first at a time and the second one millisecond later. -/
def turnsAt (time : Millis) : List Turn :=
  [⟨"a", time, ⟨30000, 1, 5000, none⟩, []⟩, ⟨"b", time + 1, ⟨30000, 1, 5000, none⟩, []⟩]

theorem reached_apart : Reached ["a", "b"] 0 apart := by
  have placed : Reached ["a", "b"] 0 _ :=
    (Reached.start.move (.listen "a:1" "a")).move (.listen "b:1" "b")
  have known := placed.move (.addPeer (n := .empty "a") ⟨"b", "b:1", [], none⟩ rfl rfl)
  have both := known.move (.addPeer (n := .empty "b") ⟨"a", "a:1", [], none⟩ rfl rfl)
  have travels : Travels (.ofTree (.boolean true)) := ⟨⟨rfl, rfl⟩, Nat.zero_le _⟩
  exact both.write <| .put (n := Network.acquaintance "a" "b" "b:1") "k" (.ofTree (.boolean true))
    rfl rfl (fun _ => travels) fun r found => Option.some.inj found ▸ by decide

theorem mem_nodes_apart {id : NodeId} {n : Node} (here : apart.net.node? id = some n) :
    (id, n) = ("a", { Network.acquaintance "a" "b" "b:1" with threats := Fleet.firstWrite }) ∨
      (id, n) = ("b", Network.acquaintance "b" "a" "a:1") := by
  have listed : (id, n) ∈ [_, _] := SortedMap.get?_eq_some_iff.mp here
  exact List.mem_pair.mp listed

theorem healed_apart : apart.net.Healed where
  up := by
    intro address e found
    have listed : (address, e) ∈ [_, _] := SortedMap.get?_eq_some_iff.mp found
    rcases List.mem_pair.mp listed with same | same
    · obtain ⟨-, rfl⟩ := Prod.mk.inj same
      exact ⟨rfl, rfl⟩
    · obtain ⟨-, rfl⟩ := Prod.mk.inj same
      exact ⟨rfl, rfl⟩
  registered := by
    intro a b n here there other
    obtain ⟨m, there⟩ := Option.isSome_iff_exists.mp there
    rcases mem_nodes_apart here with first | first <;>
      rcases mem_nodes_apart there with last | last
    all_goals
      obtain ⟨rfl, rfl⟩ := Prod.mk.inj first
      obtain ⟨rfl, rfl⟩ := Prod.mk.inj last
    · exact absurd rfl other
    · exact ⟨_, _, rfl, rfl, rfl⟩
    · exact ⟨_, _, rfl, rfl, rfl⟩
    · exact absurd rfl other

theorem trusting_apart : apart.net.Trusting := by
  intro a n b p here known
  rcases mem_nodes_apart here with same | same
  all_goals
    obtain ⟨rfl, rfl⟩ := Prod.mk.inj same
    have listed : (b, p) ∈ [_] := SortedMap.get?_eq_some_iff.mp known
    obtain ⟨-, rfl⟩ := Prod.mk.inj (List.mem_singleton.mp listed)
    decide

theorem wide_apart (time : Millis) : ∀ turn ∈ turnsAt time, apart.net.Wide turn := by
  intro turn member n here
  have narrow : n.peers.list.length ≤ 1 := by
    rcases mem_nodes_apart here with same | same
    all_goals
      obtain ⟨-, rfl⟩ := Prod.mk.inj same
      exact Nat.le_refl 1
  rcases List.mem_pair.mp member with rfl | rfl
  · exact narrow
  · exact narrow

theorem everyone_apart (time : Millis) (id : NodeId) (here : (apart.net.node? id).isSome) :
    id ∈ (turnsAt time).map Turn.id := by
  obtain ⟨n, here⟩ := Option.isSome_iff_exists.mp here
  rcases mem_nodes_apart here with same | same
  · exact List.mem_pair.mpr (.inl (Prod.mk.inj same).1)
  · exact List.mem_pair.mpr (.inr (Prod.mk.inj same).1)

/-- In the first five minutes everybody is in touch, so a round of each brings the write across. -/
theorem converges_apart : ∃ (c : Course) (ts : List Turn), Reached ["a", "b"] 0 c ∧
    c.net.Healed ∧ c.net.Trusting ∧ (ts.map Turn.id).Nodup ∧
    (∀ id, (c.net.node? id).isSome → id ∈ ts.map Turn.id) ∧ (∀ turn ∈ ts, c.net.Wide turn) ∧
    c.net.StayInTouch ts ∧ ∃ a b, (c.net.turns ts).node? "a" = some a ∧
      (c.net.turns ts).node? "b" = some b ∧
      a.threats.sameState Document.alike b.threats = true ∧ 1 ≤ b.version.count "a" := by
  have early : ∀ turn ∈ turnsAt 1, turn.time.toNat ≤ offlineAfter := by
    intro turn member
    rcases List.mem_pair.mp member with rfl | rfl
    · decide
    · decide
  have inTouch : apart.net.StayInTouch (turnsAt 1) := Network.stayInTouch_of_early early _
  have once : ((turnsAt 1).map Turn.id).Nodup := by decide
  obtain ⟨present, kept, same⟩ := healed_partition_converges reached_apart healed_apart
    trusting_apart once (everyone_apart 1) (wide_apart 1) inTouch
  obtain ⟨a, first⟩ := present "a" _ rfl
  obtain ⟨b, second⟩ := present "b" _ rfl
  have learned := (kept "a" "b" _ b rfl second).1 "a"
  exact ⟨apart, turnsAt 1, reached_apart, healed_apart, trusting_apart, once, everyone_apart 1,
    wide_apart 1, inTouch, a, b, first, second, (same "a" "b" a b first second).1, learned⟩

/-- After five minutes of silence each counts the other as offline, and no round brings the write
across. -/
theorem silent_partition_stays_apart : ∃ (c : Course) (ts : List Turn), Reached ["a", "b"] 0 c ∧
    c.net.Healed ∧ c.net.Trusting ∧ (ts.map Turn.id).Nodup ∧
    (∀ id, (c.net.node? id).isSome → id ∈ ts.map Turn.id) ∧ (∀ turn ∈ ts, c.net.Wide turn) ∧
    ∃ a b, (c.net.turns ts).node? "a" = some a ∧ (c.net.turns ts).node? "b" = some b ∧
      a.threats.sameState Document.alike b.threats = false := by
  have here : apart.net.node? "a" =
      some { Network.acquaintance "a" "b" "b:1" with threats := Fleet.firstWrite } := rfl
  have first := Network.node?_turn_of_deserted ⟨"a", 300001, ⟨30000, 1, 5000, none⟩, []⟩ here
    (by decide)
  have second := Network.node?_turn_of_deserted ⟨"b", 300001 + 1, ⟨30000, 1, 5000, none⟩, []⟩
    ((first "b").trans (b := some (Network.acquaintance "b" "a" "a:1")) rfl) (by decide)
  exact ⟨apart, turnsAt 300001, reached_apart, healed_apart, trusting_apart, by decide,
    everyone_apart _, wide_apart _, _, _, (second "a").trans (first "a"), second "b", rfl⟩

end Sample

end Course

end ThreatGossip

import ThreatGossip.Proofs.Isolation
/-!
The account of a round. Peers are drawn among those whose standing allows it, each is sent its delta
once, and what the round reports and what the roster shows afterwards agree: one outcome is counted
and booked for each peer that was drawn, in whatever order the exchanges go on. An exchange that a
shutdown cuts short is neither counted nor booked.
-/
namespace ThreatGossip

/-- As many are drawn as are asked for, or as there are. -/
theorem length_draw {α : Type} (n : Nat) (draws : List Nat) (as : List α) :
    (draw n draws as).length = min n as.length := by
  induction n generalizing draws as with
  | zero => simp [draw]
  | succ n ih =>
      simp only [draw]
      split
      next a drawn =>
        obtain ⟨inside, -⟩ := List.getElem?_eq_some_iff.mp drawn
        rw [List.length_cons, ih, List.length_eraseIdx_of_lt inside]
        omega
      next outside =>
        have beyond := List.getElem?_eq_none_iff.mp outside
        have empty : as.length = 0 := by
          by_contra some_left
          have inside := Nat.mod_lt (draws.headD 0) (Nat.pos_of_ne_zero some_left)
          omega
        simp [empty]

namespace Roster

/-- The peers whose standing at a time lets them be sent something. -/
def eligible (r : Roster) (now : Millis) : List Peer :=
  r.list.filter fun p => (p.standingAt now).selectable

theorem selectable_refreshAll (r : Roster) (now : Millis) :
    (r.refreshAll now).selectable = (r.eligible now).map (·.refresh now) := by
  have listed : (r.refreshAll now).list = r.list.map (·.refresh now) := by
    simp only [list, refreshAll, SortedMap.values, SortedMap.mapValues, List.map_map]
    rfl
  unfold selectable eligible
  rw [listed, List.filter_map]
  rfl

theorem version?_refreshAll (r : Roster) (now : Millis) (id : NodeId) :
    (r.refreshAll now).version? id = r.version? id := by
  unfold version?
  rw [get?_refreshAll, Option.map_map]
  rfl

end Roster

/-- The peers that are drawn for a round: as many as there are to be, or as are eligible, and all of
them different. -/
structure Node.Selects (n : Node) (policy : Policy) (now : Millis) (peers : List Peer) : Prop where
  count : peers.length = min policy.fanout (n.peers.eligible now).length
  distinct : (peers.map (·.id)).Nodup
  eligible : ∀ p ∈ peers, ∃ q, n.peers.get? p.id = some q ∧
    (q.standingAt now).selectable = true ∧ p = q.refresh now

theorem Node.selects_select {n : Node} (own : n.peers.Every fun id p => p.id = id) (policy : Policy)
    (draws : List Nat) (now : Millis) :
    n.Selects policy now (n.select policy draws now).2 where
  count := by
    unfold select
    rw [length_draw, Roster.selectable_refreshAll, List.length_map]
  distinct := nodup_draw (Roster.nodup_ids (own.refreshAll fun _ _ same => same) _)
  eligible := by
    intro p drawn
    have member : p ∈ (n.peers.eligible now).map (·.refresh now) := by
      rw [← Roster.selectable_refreshAll]
      exact mem_of_mem_draw drawn
    obtain ⟨q, eligible, rfl⟩ := List.mem_map.mp member
    obtain ⟨listed, selectable⟩ := List.mem_filter.mp eligible
    exact ⟨q, (Roster.mem_list_iff own).mp listed, selectable, rfl⟩

namespace Network

open Relation (ReflTransGen)

/-- A peer has been sent its delta, at its address and under its name. -/
structure Dispatched (net : Network) (n : Node) (policy : Policy) (p : Peer) (f : Flight) :
    Prop where
  built : n.deltaMessage p.id net.now = .ok f.message
  recipient : f.message.recipient = p.id
  departed : f = net.depart n.id p.id p.address .push f.message policy.timeout 0

variable {net : Network} {n : Node} {policy : Policy} {draws : List Nat}

theorem map_peer_of_dispatched {peers : List Peer} {flights : List Flight}
    (sent : List.Forall₂ (net.Dispatched n policy) peers flights) :
    flights.map Flight.peer = peers.map (·.id) := by
  induction sent with
  | nil => rfl
  | cons first _ ih =>
      have peer := congrArg Flight.peer first.departed
      rw [List.map_cons, List.map_cons, ih, peer]
      rfl

/-- Each of the peers that are known is sent its delta, in order. -/
theorem dispatched_departures {m : Node}
    (messages : ∀ id, m.deltaMessage id net.now = n.deltaMessage id net.now) (same : m.id = n.id)
    (peers : List Peer) (known : ∀ p ∈ peers, m.peers.contains p.id = true) :
    List.Forall₂ (net.Dispatched n policy) peers (net.departures m policy peers) := by
  induction peers with
  | nil => exact .nil
  | cons p peers ih =>
      obtain ⟨first, others⟩ := List.forall_mem_cons.mp known
      obtain ⟨message, built⟩ := Course.deltaMessage_of_contains net.now first
      rw [departures_cons_built built]
      refine .cons ⟨?_, ?_, ?_⟩ (ih others)
      · exact (messages p.id).symm.trans built
      · exact (pushes_depart rfl built p.address policy.timeout 0).recipient
      · rw [same]
        rfl

/-- How far an exchange of a round has come: it is under way, its outcome is there, the outcome is
booked, or the node was shut down before. -/
inductive Phase
  | sent
  | answered (outcome : Except ExchangeError Acknowledgment)
  | booked (outcome : Except ExchangeError Acknowledgment)
  | cut

namespace Phase

def acknowledged : Phase → Bool
  | booked outcome => outcome.isOk
  | _ => false

def failed : Phase → Bool
  | booked outcome => !outcome.isOk
  | _ => false

def isCut : Phase → Bool
  | cut => true
  | _ => false

/-- Nothing more comes of the exchange. -/
def isOver : Phase → Bool
  | booked _ | cut => true
  | sent | answered _ => false

/-- What is reported to the round of an exchange that is over. -/
def result : Phase → Except ExchangeError Unit
  | booked outcome => outcome.map fun _ => ()
  | _ => .error .cancelled

/-- What the exchange has made of the peer's entry. -/
def entry (now : Millis) (p : Peer) : Phase → Peer
  | booked outcome => p.book now (Exchange.verdict outcome)
  | sent | answered _ | cut => p

section Simp

variable (outcome : Except ExchangeError Acknowledgment)

@[simp] theorem acknowledged_booked : (booked outcome).acknowledged = outcome.isOk := rfl
@[simp] theorem failed_booked : (booked outcome).failed = !outcome.isOk := rfl
@[simp] theorem isCut_booked : (booked outcome).isCut = false := rfl
@[simp] theorem acknowledged_cut : cut.acknowledged = false := rfl
@[simp] theorem failed_cut : cut.failed = false := rfl
@[simp] theorem isCut_cut : cut.isCut = true := rfl

end Simp

theorem entry_of_not_over {now : Millis} {p : Peer} {phase : Phase} (going : phase.isOver = false) :
    phase.entry now p = p := by
  cases phase with
  | sent | answered => rfl
  | booked | cut => contradiction

end Phase

/-- A round under way: the network, and how far its exchanges have come, by peer. -/
structure Books where
  net : Network
  phase : NodeId → Phase

namespace Books

open Function (update)

/-- One of the exchanges goes on: its message arrives or does not, its outcome is booked, or it is
cut short, be it before the message arrives or before the answer does. -/
inductive Step (flights : List Flight) (s : Books) : Books → Prop
  | arrive {f : Flight} : f ∈ flights → s.phase f.peer = .sent →
      Step flights s ⟨(s.net.arrival f).1, update s.phase f.peer (.answered (s.net.arrival f).2)⟩
  | book {f : Flight} {outcome : Except ExchangeError Acknowledgment} : f ∈ flights →
      s.phase f.peer = .answered outcome →
      Step flights s ⟨s.net.book f outcome, update s.phase f.peer (.booked outcome)⟩
  | cut {f : Flight} : f ∈ flights → (s.phase f.peer).isOver = false →
      Step flights s ⟨s.net, update s.phase f.peer .cut⟩

/-- Nothing has come of any exchange yet. -/
def opened (net : Network) : Books := ⟨net, fun _ => .sent⟩

def Over (flights : List Flight) (s : Books) : Prop :=
  ∀ f ∈ flights, (s.phase f.peer).isOver = true

/-- What is reported of a round that is over. -/
def report (flights : List Flight) (s : Books) : RoundReport where
  selected := flights.length
  succeeded := flights.countP fun f => (s.phase f.peer).acknowledged
  failed := flights.countP fun f => (s.phase f.peer).failed

/-- The node `n` stands in a network as `n'`: with the same content, and with a roster that shows of
each peer what its exchange has come to. -/
structure Shows (net : Network) (n : Node) (now : Millis) (phase : NodeId → Phase) (n' : Node) :
    Prop where
  here : net.node? n.id = some n'
  name : n'.id = n.id
  content : n'.snapshot = n.snapshot
  entries : ∀ id, n'.peers.get? id =
    (n.peers.get? id).map fun p => (phase id).entry now (p.refresh now)

/-- What each step of a round keeps. -/
structure Kept (net : Network) (n : Node) (flights : List Flight) (s : Books) : Prop where
  now : s.net.now = net.now
  node : ∃ n', Shows s.net n net.now s.phase n'
  genuine : ∀ id outcome, s.phase id = .answered outcome ∨ s.phase id = .booked outcome →
    outcome ≠ .error .cancelled
  idle : ∀ id ∉ flights.map Flight.peer, s.phase id = .sent

/-- What can be read off the books of a round that is over: exactly one outcome is booked for each
peer that was sent something, unless its exchange was cut short, and nothing is booked for others. -/
structure Accounts (net : Network) (n : Node) (flights : List Flight) (s : Books) (n' : Node) :
    Prop where
  node : s.net.node? n.id = some n'
  content : n'.snapshot = n.snapshot
  succeeded : ∀ f ∈ flights, ∀ ack, s.phase f.peer = .booked (.ok ack) →
    n'.peers.get? f.peer =
      (n.peers.get? f.peer).map fun p => (p.refresh net.now).succeed ack.version net.now
  failed : ∀ f ∈ flights, ∀ e, s.phase f.peer = .booked (.error e) →
    n'.peers.get? f.peer = (n.peers.get? f.peer).map fun p => (p.refresh net.now).fail net.now
  spared : ∀ f ∈ flights, s.phase f.peer = .cut →
    n'.peers.get? f.peer = (n.peers.get? f.peer).map (·.refresh net.now)
  others : ∀ id ∉ flights.map Flight.peer,
    n'.peers.get? id = (n.peers.get? id).map (·.refresh net.now)
  total : (s.report flights).selected = (s.report flights).succeeded + (s.report flights).failed +
    flights.countP fun f => (s.phase f.peer).isCut

end Books

section Steps

variable {f : Flight} {flights : List Flight} {s t : Books}

theorem arrival_genuine (net : Network) (f : Flight) :
    (net.arrival f).2 ≠ .error .cancelled := by
  unfold arrival
  cases f.fate with
  | unreachable | expires => nofun
  | arrives r =>
      dsimp only
      cases (net.deliver r f.message).2 with
      | ok ack => nofun
      | error e => nofun

/-- An exchange that is over was acknowledged, has failed or was cut short. -/
theorem Books.Over.total (h : s.Over flights) : (s.report flights).selected =
    (s.report flights).succeeded + (s.report flights).failed +
      flights.countP fun f => (s.phase f.peer).isCut := by
  unfold Books.report
  dsimp only
  induction flights with
  | nil => rfl
  | cons f flights ih =>
      obtain ⟨first, others⟩ := List.forall_mem_cons.mp h
      have rest := ih others
      simp only [List.countP_cons, List.length_cons]
      cases phase : s.phase f.peer with
      | sent | answered =>
          rw [phase] at first
          contradiction
      | booked outcome =>
          rw [Phase.acknowledged_booked, Phase.failed_booked, Phase.isCut_booked]
          cases ok : outcome.isOk with
          | true | false =>
              simp only [Bool.not_true, Bool.not_false, Bool.false_eq_true, if_true, if_false]
              omega
      | cut =>
          rw [Phase.acknowledged_cut, Phase.failed_cut, Phase.isCut_cut]
          simp only [Bool.false_eq_true, if_true, if_false]
          omega

theorem Books.Over.total_of_uncut (h : s.Over flights)
    (uncut : ∀ f ∈ flights, s.phase f.peer ≠ .cut) :
    (s.report flights).selected = (s.report flights).succeeded + (s.report flights).failed := by
  have none_cut : flights.countP (fun f => (s.phase f.peer).isCut) = 0 := by
    refine List.countP_eq_zero.mpr fun f member shut => uncut f member ?_
    cases phase : s.phase f.peer with
    | cut => rfl
    | sent | answered | booked =>
        rw [phase] at shut
        contradiction
  rw [h.total, none_cut, Nat.add_zero]

namespace Books.Kept

/-- The books keep what a step does to one exchange, if the node shows it. -/
theorem update (h : s.Kept net n flights) (member : f ∈ flights) {mid : Network} {phase : Phase}
    (now : mid.now = s.net.now)
    (node : ∃ n', Shows mid n net.now (Function.update s.phase f.peer phase) n')
    (genuine : ∀ outcome, phase = .answered outcome ∨ phase = .booked outcome →
      outcome ≠ .error .cancelled) :
    Books.Kept net n flights ⟨mid, Function.update s.phase f.peer phase⟩ where
  now := now.trans h.now
  node := node
  genuine := by
    intro id outcome given
    dsimp only at given
    by_cases same : id = f.peer
    · subst same
      rw [Function.update_self] at given
      exact genuine outcome given
    · rw [Function.update_of_ne same] at given
      exact h.genuine id outcome given
  idle := by
    intro id past
    have other : id ≠ f.peer := fun same => past (List.mem_map.mpr ⟨f, member, same.symm⟩)
    exact (Function.update_of_ne other ..).trans (h.idle id past)

/-- As long as nothing is booked, the entry of the peer stays. -/
theorem shows_unbooked {n' : Node} (shown : Shows s.net n net.now s.phase n')
    (going : (s.phase f.peer).isOver = false) {phase : Phase}
    (unbooked : ∀ p, phase.entry net.now p = p) :
    Shows s.net n net.now (Function.update s.phase f.peer phase) n' := by
  refine { shown with entries := fun id => ?_ }
  rw [shown.entries id]
  by_cases same : id = f.peer
  · subst same
    simp only [Function.update_self, unbooked, Phase.entry_of_not_over going]
  · rw [Function.update_of_ne same]

/-- A step is one of three: the arrival changes other nodes only, the booking changes the entry of
the peer, and the cut changes nothing. -/
theorem step (h : s.Kept net n flights) (pushes : ∀ f ∈ flights, f.Pushes n.id f.peer)
    (step : s.Step flights t) : t.Kept net n flights := by
  obtain ⟨n', shown⟩ := h.node
  cases step with
  | @arrive f member sent =>
      have going : (s.phase f.peer).isOver = false := by rw [sent]; rfl
      have arrived : Shows s.net n net.now
          (Function.update s.phase f.peer (.answered (s.net.arrival f).2)) n' :=
        shows_unbooked shown going fun _ => rfl
      refine h.update member (s.net.now_arrival f) ⟨n', { arrived with here := ?_ }⟩ ?_
      · exact (node?_arrival (pushes f member).sender).trans shown.here
      · rintro outcome (same | other)
        · cases same
          exact s.net.arrival_genuine f
        · contradiction
  | @cut f member going =>
      refine h.update member rfl ⟨n', shows_unbooked shown going fun _ => rfl⟩ ?_
      rintro outcome (other | other) <;> contradiction
  | @book f outcome member answered =>
      have going : (s.phase f.peer).isOver = false := by rw [answered]; rfl
      refine h.update member ?_ ⟨(n'.conclude .push f.peer s.net.now outcome).1, ?_⟩ ?_
      · unfold Network.book adjustNode
        cases s.net.node? f.initiator <;> rfl
      · refine ⟨node?_book shown.name (pushes f member) shown.here,
          (n'.id_of_conclude ..).trans shown.name,
          Node.snapshot_conclude_push.trans shown.content, fun id => ?_⟩
        rw [Node.get?_conclude_push, shown.entries id, h.now]
        split
        next same =>
          subst same
          rw [Function.update_self, Option.map_map]
          simp only [Function.comp_def, Phase.entry_of_not_over going]
          rfl
        next other => rw [Function.update_of_ne other]
      · rintro outcome' (other | same)
        · contradiction
        · cases same
          exact h.genuine f.peer outcome (.inl answered)

/-- A round begins with standings brought up to date. -/
theorem opened (policy : Policy) (draws : List Nat) :
    Books.Kept net n flights (Books.opened (net.startRound n policy draws 0).1) where
  now := rfl
  node := by
    refine ⟨(n.select policy draws net.now).1, ?_, rfl, rfl, fun id => ?_⟩
    · exact (node?_setNode ..).trans (if_pos rfl)
    · exact Roster.get?_refreshAll ..
  genuine := by
    rintro id outcome (other | other) <;> contradiction
  idle := fun _ _ => rfl

theorem run (h : s.Kept net n flights) (pushes : ∀ f ∈ flights, f.Pushes n.id f.peer)
    (run : ReflTransGen (Books.Step flights) s t) : t.Kept net n flights := by
  induction run with
  | refl => exact h
  | tail _ last ih => exact ih.step pushes last

/-- The books of a round that is over add up. -/
theorem accounts (h : s.Kept net n flights) (ended : s.Over flights) :
    ∃ n', s.Accounts net n flights n' := by
  obtain ⟨n', shown⟩ := h.node
  refine ⟨n', shown.here, shown.content, ?_, ?_, ?_, ?_, ended.total⟩
  · intro f _ ack booked
    rw [shown.entries, booked]
    rfl
  · intro f _ e booked
    have genuine : e ≠ .cancelled := fun same =>
      h.genuine f.peer _ (.inr booked) (congrArg _ same)
    rw [shown.entries, booked]
    cases e with
    | cancelled => contradiction
    | transport | timedOut | refused | noReply | wrongReply => rfl
  · intro f _ cut
    rw [shown.entries, cut]
    rfl
  · intro id past
    rw [shown.entries, h.idle id past]
    rfl

end Books.Kept

end Steps

section Rounds

variable {f : Flight} {flights : List Flight} {s : Books}

theorem land_push (net : Network) (push : f.purpose = .push) :
    (net.land f).2 = (net.arrival f).2.map fun _ => () := by
  have concluded (n : Node) (now : Millis) (outcome : Except ExchangeError Acknowledgment) :
      (n.conclude .push f.peer now outcome).2 = outcome.map fun _ => () := by
    cases outcome with
    | ok ack => rfl
    | error e => cases e <;> rfl
  unfold land arrival
  cases f.fate with
  | unreachable | expires =>
      dsimp only
      cases net.node? f.initiator with
      | none => rfl
      | some n => exact push ▸ concluded n _ _
  | arrives r =>
      dsimp only
      generalize net.deliver r f.message = delivered
      cases delivered.1.node? f.initiator with
      | none => rfl
      | some n => exact push ▸ concluded n _ _

/-- A flight under way can arrive and be booked at once. -/
theorem Books.lands (member : f ∈ flights) (sent : s.phase f.peer = .sent) :
    ReflTransGen (Books.Step flights) s
      ⟨(s.net.land f).1, Function.update s.phase f.peer (.booked (s.net.arrival f).2)⟩ := by
  have books : Books.Step flights
      ⟨(s.net.arrival f).1, Function.update s.phase f.peer (.answered (s.net.arrival f).2)⟩
      ⟨(s.net.arrival f).1.book f (s.net.arrival f).2,
        Function.update (Function.update s.phase f.peer (.answered (s.net.arrival f).2)) f.peer
          (.booked (s.net.arrival f).2)⟩ :=
    .book member (Function.update_self ..)
  rw [Function.update_idem, ← land_eq_book] at books
  exact (ReflTransGen.single (.arrive member sent)).tail books

/-- What is set for one peer does not touch those of later flights. -/
theorem phase_of_fresh {fs : List Flight} {g : Flight} (fresh : f.peer ∉ fs.map Flight.peer)
    (later : g ∈ fs) (phase : Phase) : Function.update s.phase f.peer phase g.peer =
      s.phase g.peer :=
  Function.update_of_ne (fun same => fresh (List.mem_map.mpr ⟨g, later, same⟩)) ..

/-- Flights can land one after the other, and their results are those that the books tell. -/
theorem Books.lands_all (fs : List Flight) (distinct : (fs.map Flight.peer).Nodup)
    (members : ∀ f ∈ fs, f ∈ flights ∧ f.purpose = .push ∧ s.phase f.peer = .sent)
    (results : List (Except ExchangeError Unit)) :
    ∃ t, ReflTransGen (Books.Step flights) s t ∧
      fs.foldl (fun (state : Network × List (Except ExchangeError Unit)) f =>
        ((state.1.land f).1, (state.1.land f).2 :: state.2)) (s.net, results) =
          (t.net, (fs.map fun f => (t.phase f.peer).result).reverse ++ results) ∧
      (∀ f ∈ fs, ∃ outcome, t.phase f.peer = .booked outcome) ∧
      ∀ q ∉ fs.map Flight.peer, t.phase q = s.phase q := by
  induction fs generalizing s results with
  | nil => exact ⟨s, .refl, rfl, List.forall_mem_nil _, fun _ _ => rfl⟩
  | cons f fs ih =>
      obtain ⟨fresh, distinct⟩ := List.nodup_cons.mp distinct
      obtain ⟨⟨member, push, sent⟩, others⟩ := List.forall_mem_cons.mp members
      obtain ⟨t, rest, net, booked, kept⟩ :=
        ih (s := ⟨(s.net.land f).1,
            Function.update s.phase f.peer (.booked (s.net.arrival f).2)⟩) distinct
          (fun g later => by
            obtain ⟨member, push, sent⟩ := others g later
            exact ⟨member, push, (phase_of_fresh fresh later _).trans sent⟩)
          ((s.net.land f).2 :: results)
      have first : t.phase f.peer = .booked (s.net.arrival f).2 :=
        (kept f.peer fresh).trans (Function.update_self ..)
      refine ⟨t, (lands member sent).trans rest, ?_, List.forall_mem_cons.mpr ⟨⟨_, first⟩, booked⟩,
        fun q past => ?_⟩
      · rw [List.foldl_cons, net, land_push s.net push, List.map_cons, List.reverse_cons, first,
          List.append_assoc]
        rfl
      · obtain ⟨other, past⟩ := not_or.mp (mt List.mem_cons.mpr past)
        exact (kept q past).trans (Function.update_of_ne other ..)

/-- Flights under way can all be cut short. -/
theorem Books.cuts_all (fs : List Flight) (distinct : (fs.map Flight.peer).Nodup)
    (members : ∀ f ∈ fs, f ∈ flights ∧ s.phase f.peer = .sent) :
    ∃ phase, ReflTransGen (Books.Step flights) s ⟨s.net, phase⟩ ∧
      (∀ f ∈ fs, phase f.peer = .cut) ∧ ∀ q ∉ fs.map Flight.peer, phase q = s.phase q := by
  induction fs generalizing s with
  | nil => exact ⟨s.phase, .refl, List.forall_mem_nil _, fun _ _ => rfl⟩
  | cons f fs ih =>
      obtain ⟨fresh, distinct⟩ := List.nodup_cons.mp distinct
      obtain ⟨⟨member, sent⟩, others⟩ := List.forall_mem_cons.mp members
      obtain ⟨phase, rest, cut, kept⟩ :=
        ih (s := ⟨s.net, Function.update s.phase f.peer .cut⟩) distinct fun g later => by
          obtain ⟨member, sent⟩ := others g later
          exact ⟨member, (phase_of_fresh fresh later _).trans sent⟩
      have step : Books.Step flights s ⟨s.net, Function.update s.phase f.peer .cut⟩ :=
        .cut member (by rw [sent]; rfl)
      refine ⟨phase, rest.head step, List.forall_mem_cons.mpr ⟨?_, cut⟩, fun q past => ?_⟩
      · exact (kept f.peer fresh).trans (Function.update_self ..)
      · obtain ⟨other, past⟩ := not_or.mp (mt List.mem_cons.mpr past)
        exact (kept q past).trans (Function.update_of_ne other ..)

/-- The results of all flights that land are those that the books tell. -/
theorem Books.landAll_all (fs : List Flight) (distinct : (fs.map Flight.peer).Nodup)
    (members : ∀ f ∈ fs, f ∈ flights ∧ f.purpose = .push ∧ s.phase f.peer = .sent) :
    ∃ t, ReflTransGen (Books.Step flights) s t ∧ (s.net.landAll fs).1 = t.net ∧
      ((s.net.landAll fs).2).Perm (fs.map fun f => (t.phase f.peer).result) ∧
      (∀ f ∈ fs, ∃ outcome, t.phase f.peer = .booked outcome) ∧
      ∀ q ∉ fs.map Flight.peer, t.phase q = s.phase q := by
  have perm := List.mergeSort_perm fs fun a b => a.due ≤ b.due
  have peers := perm.map Flight.peer
  obtain ⟨t, run, landed, booked, kept⟩ := lands_all (s := s) _ (peers.nodup_iff.mpr distinct)
    (fun f member => members f (perm.mem_iff.mp member)) []
  have all : s.net.landAll fs = (t.net, ((fs.mergeSort fun a b => a.due ≤ b.due).map
      fun f => (t.phase f.peer).result)) := by
    unfold landAll
    simp only [landed, List.append_nil, List.reverse_reverse]
  refine ⟨t, run, congrArg Prod.fst all, ?_, fun f member => booked f (perm.mem_iff.mpr member),
    fun q past => kept q (mt peers.mem_iff.mp past)⟩
  rw [all]
  exact perm.map _

theorem peer_mem_filter (distinct : (flights.map Flight.peer).Nodup) (member : f ∈ flights)
    {p : Flight → Bool} : f.peer ∈ (flights.filter p).map Flight.peer ↔ p f = true := by
  constructor
  · intro listed
    obtain ⟨g, chosen, same⟩ := List.mem_map.mp listed
    obtain ⟨other, chosen⟩ := List.mem_filter.mp chosen
    obtain rfl := List.inj_on_of_nodup_map distinct other member same
    exact chosen
  · intro chosen
    exact List.mem_map_of_mem (List.mem_filter.mpr ⟨member, chosen⟩)

/-- Some of the flights have landed, and the others were cut short. -/
structure Books.Decided (lands : Flight → Bool) (flights : List Flight) (s : Books) : Prop where
  booked : ∀ f ∈ flights, lands f = true → ∃ outcome, s.phase f.peer = .booked outcome
  cut : ∀ f ∈ flights, lands f = false → s.phase f.peer = .cut

namespace Books.Decided

variable {lands : Flight → Bool}

theorem ended (h : s.Decided lands flights) : s.Over flights := by
  intro f member
  cases landsf : lands f with
  | true =>
      obtain ⟨outcome, booked⟩ := h.booked f member landsf
      rw [booked]
      rfl
  | false =>
      rw [h.cut f member landsf]
      rfl

theorem cut_iff (h : s.Decided lands flights) (member : f ∈ flights) :
    s.phase f.peer = .cut ↔ lands f = false := by
  constructor
  · intro shut
    by_contra landsf
    obtain ⟨outcome, booked⟩ := h.booked f member (Bool.eq_true_of_not_eq_false landsf)
    nomatch booked.symm.trans shut
  · exact h.cut f member

/-- Where a cut does not count, only what has landed does. -/
theorem countP_eq (h : s.Decided lands flights) {p : Phase → Bool} (spared : p .cut = false) :
    (flights.countP fun f => p (s.phase f.peer)) =
      (flights.filter lands).countP fun f => p (s.phase f.peer) := by
  rw [List.countP_eq_countP_filter_add flights _ lands]
  refine Nat.add_eq_left.mpr (List.countP_eq_zero.mpr fun f member => ?_)
  obtain ⟨member, passed⟩ := List.mem_filter.mp member
  rw [h.cut f member (by simpa using passed), spared]
  exact Bool.false_ne_true

/-- What is reported from the results of the flights that have landed is what the books tell. -/
theorem report_eq (h : s.Decided lands flights) {results : List (Except ExchangeError Unit)}
    (told : results.Perm ((flights.filter lands).map fun f => (s.phase f.peer).result)) :
    s.report flights = ⟨flights.length, (results.filter Except.isOk).length,
      results.length - (results.filter Except.isOk).length⟩ := by
  have landed {f : Flight} (member : f ∈ flights.filter lands) :
      ∃ outcome, s.phase f.peer = .booked outcome :=
    h.booked f (List.mem_filter.mp member).1 (List.mem_filter.mp member).2
  have succeeded : (results.filter Except.isOk).length =
      (flights.filter lands).countP fun f => (s.phase f.peer).acknowledged := by
    rw [← List.countP_eq_length_filter, told.countP_eq, List.countP_map]
    refine List.countP_congr fun f member => ?_
    obtain ⟨outcome, phase⟩ := landed member
    simp only [Function.comp_apply, phase, Phase.acknowledged_booked]
    cases outcome <;> rfl
  have failed : (flights.filter lands).countP (fun f => (s.phase f.peer).failed) =
      (flights.filter lands).countP fun f => decide ¬(s.phase f.peer).acknowledged = true := by
    refine List.countP_congr fun f member => ?_
    obtain ⟨outcome, phase⟩ := landed member
    simp [phase]
  have all : results.length = (flights.filter lands).length := by
    rw [told.length_eq, List.length_map]
  have parts := List.length_eq_countP_add_countP (l := flights.filter lands)
    fun f => (s.phase f.peer).acknowledged
  unfold Books.report
  rw [h.countP_eq rfl, h.countP_eq rfl, ← succeeded, failed]
  congr
  omega

end Books.Decided

/-- Of the flights of a round those that are to can land, in the order in which they are decided, and
the others be cut short. -/
theorem Books.decided (opening : Network) (distinct : (flights.map Flight.peer).Nodup)
    (push : ∀ f ∈ flights, f.purpose = .push) (lands : Flight → Bool) :
    ∃ t, ReflTransGen (Books.Step flights) (Books.opened opening) t ∧ t.Decided lands flights ∧
      (opening.landAll (flights.filter lands)).1 = t.net ∧
      (opening.landAll (flights.filter lands)).2.Perm
        ((flights.filter lands).map fun f => (t.phase f.peer).result) := by
  have apart (p : Flight → Bool) : ((flights.filter p).map Flight.peer).Nodup :=
    (List.filter_sublist.map _).nodup distinct
  obtain ⟨s, landing, net, told, landed, kept⟩ :=
    Books.landAll_all (s := Books.opened opening) (flights.filter lands) (apart lands)
      fun f member => ⟨(List.mem_filter.mp member).1, push f (List.mem_filter.mp member).1, rfl⟩
  obtain ⟨phase, cutting, cut, kept'⟩ :=
    Books.cuts_all (s := s) (flights.filter fun f => !lands f) (apart _) fun f member => by
      obtain ⟨member, passed⟩ := List.mem_filter.mp member
      refine ⟨member, kept f.peer fun listed => ?_⟩
      rw [(peer_mem_filter distinct member).mp listed] at passed
      contradiction
  have stays : ∀ f ∈ flights, lands f = true → phase f.peer = s.phase f.peer := by
    intro f member landsf
    refine kept' f.peer fun listed => ?_
    have passed := (peer_mem_filter distinct member).mp listed
    rw [landsf] at passed
    contradiction
  have decided : Books.Decided lands flights ⟨s.net, phase⟩ := by
    constructor
    · intro f member landsf
      obtain ⟨outcome, booked⟩ := landed f (List.mem_filter.mpr ⟨member, landsf⟩)
      exact ⟨outcome, (stays f member landsf).trans booked⟩
    · intro f member passed
      exact cut f (List.mem_filter.mpr ⟨member, by rw [passed]; rfl⟩)
  refine ⟨_, landing.trans cutting, decided, net, told.trans (.of_eq ?_)⟩
  refine List.map_congr_left fun f member => ?_
  obtain ⟨member, landsf⟩ := List.mem_filter.mp member
  exact congrArg Phase.result (stays f member landsf).symm

/-- A round of the program is one of the ways in which its exchanges may go on. -/
theorem round_books (deadline : Option Nat)
    (distinct : ((net.startRound n policy draws 0).2.map Flight.peer).Nodup)
    (push : ∀ f ∈ (net.startRound n policy draws 0).2, f.purpose = .push) :
    ∃ t, ReflTransGen (Books.Step (net.startRound n policy draws 0).2)
        (Books.opened (net.startRound n policy draws 0).1) t ∧
      t.Over (net.startRound n policy draws 0).2 ∧
      net.round n policy draws deadline =
        (t.net, t.report (net.startRound n policy draws 0).2) ∧
      ∀ f ∈ (net.startRound n policy draws 0).2,
        t.phase f.peer = .cut ↔ f.due ≠ 0 ∧ ∃ limit, deadline = some limit ∧ limit ≤ f.due := by
  obtain ⟨t, run, decided, landed, told⟩ := Books.decided (net.startRound n policy draws 0).1
    distinct push fun f => decide (f.due = 0 ∨ deadline.all (f.due < ·))
  refine ⟨t, run, decided.ended, ?_, fun f member => (decided.cut_iff member).trans ?_⟩
  · have report := decided.report_eq told
    rw [report, ← landed]
    rfl
  · cases deadline <;> simp

end Rounds

end Network

end ThreatGossip

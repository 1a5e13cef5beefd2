import ThreatGossip.Proofs.Operations
import ThreatGossip.Proofs.Rounds
/-!
Quarantine lasts. A peer that is quarantined stays so until an exchange with it succeeds or it is
forgotten: no registration, no message, no round and no passage of time gives it back the trust that
it has lost. Until then it is not selected, and no round sends it anything.
-/
namespace ThreatGossip

open Relation (ReflTransGen)

/-- The operation neither forgets the peer nor books a success for it. -/
def Operation.Spares (id : NodeId) (r : Roster) : Operation → Prop
  | remove q | succeed q _ _ => q ≠ id
  | evict maxAge now => id ∉ r.stale maxAge now
  | _ => True

namespace Peer

variable {id : NodeId} {p : Peer}

/-- An entry under the peer's id with a score, whose standing tells whether that is too low. -/
structure Judged (id : NodeId) (p : Peer) : Prop extends p.Filed id where
  score : Trust.Score p.trust

theorem judged_newPeer {i : Introduction} (own : i.id = id) (now : Millis) :
    ((Roster.newPeer i now).refresh now).Judged id :=
  ⟨Peer.filed_refresh own now, Trust.score_ofGiven i.trust⟩

end Peer

namespace Operation

variable {owner id : NodeId} {r : Roster} {p p' : Peer} {op : Operation}

theorem Carries.judged (h : op.Carries id p p') (old : p.Judged id) : p'.Judged id where
  own := h.own.trans old.own
  settled := by
    rw [h.standing]
    cases review : op.review? id with
    | none =>
        rw [(h.unreviewed review).1]
        exact old.settled
    | some now => exact p'.standingAt_eq_quarantined_iff now
  score := by
    rw [h.trust]
    cases op.outcome? id with
    | none => exact old.score
    | some succeeded => exact Trust.score_after old.score succeeded

/-- Trust does not rise but by a success. -/
theorem Carries.trust_le (h : op.Carries id p p') (score : Trust.Score p.trust)
    (failed : op.outcome? id ≠ some true) : p'.trust ≤ p.trust := by
  rw [h.trust]
  rcases outcome : op.outcome? id with _ | _ | _
  · exact Trust.Score.le_self score
  · exact Trust.after_false_le score
  · exact absurd outcome failed

/-- A spared peer keeps its entry. -/
theorem Spares.stays (h : op.Spares id r) (own : p.id = id) (known : r.get? id = some p) :
    ∃ p', (r.perform op).get? id = some p' ∧ op.Carries id p p' := by
  rw [Roster.get?_perform, known]
  cases after : op.entry r.owner id (some p) with
  | some p' =>
      obtain ⟨old, same, carries⟩ | ⟨absent, -⟩ := entry_cases after
      · obtain rfl := Option.some.inj same
        exact ⟨p', rfl, carries⟩
      · cases absent
  | none =>
      cases op with
      | register i now =>
          simp only [entry] at after
          split at after <;> cases after
      | remove q =>
          rw [entry, if_neg h] at after
          cases after
      | touch q now | learn q version | succeed q acked now | fail q now =>
          simp only [entry] at after
          split at after <;> cases after
      | refresh now => cases after
      | evict maxAge now =>
          refine absurd ?_ h
          have stale : p.isStale maxAge now = true := by
            simpa [entry, Option.filter_some] using after
          refine List.mem_map.mpr ⟨p, List.mem_filter.mpr ⟨?_, stale⟩, own⟩
          exact Roster.mem_list_of_get? known

/-- A spared peer is not booked a success. -/
theorem Spares.outcome_ne (h : op.Spares id r) : op.outcome? id ≠ some true := by
  intro succeeded
  cases op with
  | succeed q acked now =>
      rw [outcome?, if_neg h] at succeeded
      cases succeeded
  | fail q now =>
      simp only [outcome?] at succeeded
      split at succeeded <;> cases succeeded
  | register i now | remove q | touch q now | learn q version | refresh now | evict maxAge now =>
      cases succeeded

end Operation

namespace Roster

variable {id : NodeId} {r : Roster}

/-- The peer is quarantined, and all entries are as they should be. -/
structure Shuns (r : Roster) (id : NodeId) : Prop where
  judged : r.Every Peer.Judged
  quarantined : ∃ p, r.get? id = some p ∧ p.standing = .quarantined

theorem every_judged_after (owner : NodeId) (ops : List Operation) :
    ((empty owner).after ops).Every Peer.Judged :=
  every_after (fun _ _ now own _ _ _ => Peer.judged_newPeer own now)
    (fun _ _ _ _ carries old => carries.judged old) ops

theorem Shuns.perform (h : r.Shuns id) (op : Operation) (spares : op.Spares id r) :
    (r.perform op).Shuns id := by
  obtain ⟨judged, p, known, quarantined⟩ := h
  have all : (r.perform op).Every Peer.Judged :=
    judged.perform (fun _ _ now own _ _ _ => Peer.judged_newPeer own now)
      (fun _ _ _ _ carries old => carries.judged old) op
  refine ⟨all, ?_⟩
  have old := judged id p known
  obtain ⟨p', known', carries⟩ := spares.stays old.own known
  refine ⟨p', known', (carries.judged old).settled.mpr ?_⟩
  exact Double.lt_of_le_of_lt (carries.trust_le old.score spares.outcome_ne)
    (old.settled.mp quarantined)

theorem Shuns.ne_of_selectable (h : r.Shuns id) {p : Peer} (selectable : p ∈ r.selectable) :
    p.id ≠ id := by
  rintro rfl
  obtain ⟨listed, selectable⟩ := List.mem_filter.mp selectable
  obtain ⟨q, known, quarantined⟩ := h.quarantined
  have here := (mem_list_iff fun id p found => (h.judged id p found).own).mp listed
  obtain rfl := Option.some.inj (known.symm.trans here)
  rw [quarantined] at selectable
  nomatch selectable

end Roster

namespace Node

variable {id : NodeId} {n next : Node}

/-- What can happen at a node while no exchange with the peer succeeds and it is not forgotten. -/
inductive Happens (id : NodeId) (n : Node) : Node → Prop
  /-- Somebody is registered, the peer itself or another. -/
  | introduced {next : Node} {i : Introduction} {now : Millis} :
      n.addPeer i now = .ok next → Happens id n next
  /-- A message comes in, from whomever and with whatever in it. -/
  | heard {next : Node} {m : Message} {now : Millis} {ack : Acknowledgment} :
      n.handle m now = .ok (next, ack) → Happens id n next
  /-- A round of the node is completed, over any network that it is part of. -/
  | round {next : Node} {net : Network} {policy : Policy} {draws : List Nat}
      {deadline : Option Nat} (named : ∀ q x, net.node? q = some x → x.id = q) :
      net.node? n.id = some n → (net.round n policy draws deadline).1.node? n.id = some next →
      Happens id n next
  /-- An exchange with another peer ends, however it does. -/
  | concluded {peer : NodeId} (other : peer ≠ id) (purpose : Purpose) (now : Millis)
      (outcome : Except ExchangeError Acknowledgment) :
      Happens id n (n.conclude purpose peer now outcome).1
  /-- An exchange with the peer fails. -/
  | failed (now : Millis) : Happens id n (n.recordFailure id now)
  | refreshed (now : Millis) : Happens id n { n with peers := n.peers.refreshAll now }
  /-- Stale peers are forgotten, but not this one. -/
  | pruned (policy : Policy) (now : Millis) :
      id ∉ (n.prune policy now).2 → Happens id n (n.prune policy now).1
  /-- Anything else is done to the roster that spares the peer. -/
  | operated {op : Operation} :
      op.Spares id n.peers → Happens id n { n with peers := n.peers.perform op }
  /-- Something else of the node changes. -/
  | elsewhere {next : Node} : next.id = n.id → next.peers = n.peers → Happens id n next

theorem shuns_of_handle {m : Message} {now : Millis} {ack : Acknowledgment}
    (handled : n.handle m now = .ok (next, ack)) (h : n.peers.Shuns id) : next.peers.Shuns id := by
  refine keeps_of_handle handled (P := (·.Shuns id)) ?_ ?_ h
  · intro r h
    rw [← Roster.perform_touch]
    exact h.perform (.touch m.sender now) trivial
  · exact fun r h => h.perform (.learn m.sender m.version) trivial

theorem shuns_of_conclude {purpose : Purpose} {peer : NodeId} (other : peer ≠ id) {now : Millis}
    {outcome : Except ExchangeError Acknowledgment} (h : n.peers.Shuns id) :
    (n.conclude purpose peer now outcome).1.peers.Shuns id := by
  have booked {r : Roster} (h : r.Shuns id) (acked : Clock) :
      (r.recordSuccess peer acked now).1.Shuns id :=
    h.perform (.succeed peer acked now) other
  rcases n.conclude_cases purpose peer now outcome with
    same | failed | ⟨ack, -, succeeded⟩ | ⟨ack, m, next, answer, -, -, handled, succeeded⟩
  · rw [same]
    exact h
  · rw [failed]
    exact h.perform (.fail peer now) trivial
  · rw [succeeded]
    exact booked h ack.version
  · rw [succeeded]
    exact booked (shuns_of_handle handled h) ack.version

theorem shuns_prune {policy : Policy} {now : Millis} (spared : id ∉ (n.prune policy now).2)
    (h : n.peers.Shuns id) : (n.prune policy now).1.peers.Shuns id := by
  have refreshed : (n.peers.refreshAll now).Shuns id := h.perform (.refresh now) trivial
  unfold prune at spared ⊢
  cases age : policy.evictionAge with
  | none => exact refreshed
  | some maxAge =>
      rw [age] at spared
      exact refreshed.perform (.evict maxAge now) spared

end Node

namespace Network

variable {net : Network} {me id : NodeId} {n next : Node}

/-- What becomes of the nodes when a message is delivered: nothing, or one of them has handled what
it read. -/
theorem nodes_of_deliver (net : Network) (r : Responder) (m : Message) :
    (net.deliver r m).1.nodes = net.nodes ∨
    ∃ q x m' next ack, net.node? q = some x ∧ x.handle m' net.now = .ok (next, ack) ∧
      (net.deliver r m).1.nodes = net.nodes.insert next.id next := by
  rcases net.deliver_cases r m with (same | same) | ⟨q, x, m', next, ack, -, here, -, handled, done⟩
  · rw [same]
    exact .inl rfl
  · rw [same]
    exact .inl rfl
  · rw [done]
    exact .inr ⟨q, x, m', next, ack, here, handled, rfl⟩

/-- The node stands in a network of nodes under their own names, and shuns the peer. -/
structure Guards (net : Network) (me id : NodeId) : Prop where
  named : ∀ q x, net.node? q = some x → x.id = q
  shuns : ∃ n, net.node? me = some n ∧ n.peers.Shuns id

theorem Guards.setNode (h : net.Guards me id) (shuns : next.id = me → next.peers.Shuns id) :
    (net.setNode next).Guards me id := by
  obtain ⟨named, n, here, held⟩ := h
  constructor
  · intro q x found
    rw [node?_setNode] at found
    split at found
    next same =>
      obtain rfl := Option.some.inj found
      exact same.symm
    next => exact named q x found
  · rw [node?_setNode]
    split
    next same => exact ⟨next, rfl, shuns same.symm⟩
    next => exact ⟨n, here, held⟩

theorem Guards.of_nodes {net' : Network} (h : net.Guards me id) (same : net'.nodes = net.nodes) :
    net'.Guards me id := by
  have found (q : NodeId) : net'.node? q = net.node? q := congrArg (·.get? q) same
  refine ⟨fun q x here => h.named q x (found q ▸ here), ?_⟩
  rw [found]
  exact h.shuns

theorem Guards.deliver (h : net.Guards me id) (r : Responder) (m : Message) :
    (net.deliver r m).1.Guards me id := by
  rcases net.nodes_of_deliver r m with same | ⟨q, x, m', next, ack, here, handled, nodes⟩
  · exact h.of_nodes same
  · have set : (net.setNode next).Guards me id := h.setNode fun own => ?_
    · exact set.of_nodes nodes
    obtain ⟨n, found, held⟩ := h.shuns
    have name : q = me := by rw [← h.named q x here, ← Node.id_of_handle handled, own]
    subst name
    obtain rfl := Option.some.inj (here.symm.trans found)
    exact Node.shuns_of_handle handled held

theorem Guards.land (h : net.Guards me id) {f : Flight} (other : f.initiator = me → f.peer ≠ id) :
    (net.land f).1.Guards me id := by
  rw [land_eq]
  have arrived : (net.arrival f).1.Guards me id := by
    unfold arrival
    cases f.fate with
    | unreachable | expires => exact h
    | arrives r => exact h.deliver r f.message
  unfold adjustNode
  cases here : (net.arrival f).1.node? f.initiator with
  | none => exact arrived
  | some n =>
      refine arrived.setNode fun own => ?_
      have name : f.initiator = me := by
        rw [Node.id_of_conclude, arrived.named _ n here] at own
        exact own
      obtain ⟨n', found, held⟩ := arrived.shuns
      rw [← name, here] at found
      obtain rfl := Option.some.inj found
      exact Node.shuns_of_conclude (other name) held

theorem Guards.landAll (h : net.Guards me id) {fs : List Flight}
    (others : ∀ f ∈ fs, f.peer ≠ id) : (net.landAll fs).1.Guards me id := by
  rw [landAll_eq]
  have others : ∀ f ∈ fs.mergeSort fun a b => a.due ≤ b.due, f.peer ≠ id := by
    intro f member
    exact others f (List.mem_mergeSort.mp member)
  generalize fs.mergeSort (fun a b => decide (a.due ≤ b.due)) = fs at others
  induction fs generalizing net with
  | nil => exact h
  | cons f fs ih =>
      obtain ⟨first, rest⟩ := List.forall_mem_cons.mp others
      exact ih (h.land fun _ => first) rest

/-- A node that shuns a peer sends it nothing in a round. -/
theorem ne_of_mem_startRound (h : n.peers.Shuns id) {policy : Policy} {draws : List Nat}
    {time : Nat} {f : Flight} (sent : f ∈ (net.startRound n policy draws time).2) :
    f.peer ≠ id ∧ f.message.recipient ≠ id := by
  obtain ⟨p, m, drawn, built, rfl⟩ := mem_startRound.mp sent
  have refreshed : (n.peers.refreshAll net.now).Shuns id :=
    h.perform (.refresh net.now) trivial
  have other : p.id ≠ id := refreshed.ne_of_selectable (mem_of_mem_draw drawn)
  refine ⟨other, ?_⟩
  unfold Node.deltaMessage at built
  split at built
  next =>
    obtain rfl := Except.ok.inj built
    exact other
  next => nomatch built

theorem Guards.round (h : net.Guards n.id id) (held : n.peers.Shuns id) (policy : Policy)
    (draws : List Nat) (deadline : Option Nat) :
    (net.round n policy draws deadline).1.Guards n.id id := by
  have started : (net.startRound n policy draws 0).1.Guards n.id id :=
    h.setNode fun _ => held.perform (.refresh net.now) trivial
  refine started.landAll fun f member => ?_
  exact (ne_of_mem_startRound held (List.mem_of_mem_filter member)).1

end Network

namespace Node

variable {id : NodeId} {n next : Node}

theorem Happens.shuns (happens : n.Happens id next) (h : n.peers.Shuns id) :
    next.peers.Shuns id := by
  cases happens with
  | @introduced next i now added =>
      obtain ⟨peers, registered, rfl⟩ := addPeer_spec added
      have performed := h.perform (.register i now) trivial
      rw [Roster.perform, registered] at performed
      exact performed
  | heard handled => exact shuns_of_handle handled h
  | round named here there =>
      have guards : Network.Guards _ n.id id := ⟨named, n, here, h⟩
      obtain ⟨n', found, held⟩ := (guards.round h _ _ _).shuns
      obtain rfl := Option.some.inj (there.symm.trans found)
      exact held
  | concluded other purpose now outcome => exact shuns_of_conclude other h
  | failed now => exact h.perform (.fail id now) trivial
  | refreshed now => exact h.perform (.refresh now) trivial
  | pruned policy now spared => exact shuns_prune spared h
  | operated spares => exact h.perform _ spares
  | elsewhere _ peers => exact peers ▸ h

/-- The peer is quarantined, and neither a selection nor a round reaches for it. -/
structure Avoids (n : Node) (id : NodeId) : Prop where
  quarantined : ∃ p, n.peers.get? id = some p ∧ p.standing = .quarantined
  unselectable : ∀ p ∈ n.peers.selectable, p.id ≠ id
  unselected : ∀ policy draws now, ∀ p ∈ (n.select policy draws now).2, p.id ≠ id
  unsent : ∀ (net : Network) policy draws time, ∀ f ∈ (net.startRound n policy draws time).2,
    f.peer ≠ id ∧ f.message.recipient ≠ id

theorem avoids_of_shuns (h : n.peers.Shuns id) : n.Avoids id where
  quarantined := h.quarantined
  unselectable := fun _ selectable => h.ne_of_selectable selectable
  unselected := by
    intro policy draws now p drawn
    have refreshed : (n.peers.refreshAll now).Shuns id := h.perform (.refresh now) trivial
    exact refreshed.ne_of_selectable (mem_of_mem_draw drawn)
  unsent := fun _ _ _ _ _ sent => Network.ne_of_mem_startRound h sent

/-- A peer that is quarantined at a node, however its roster came about, stays quarantined there and
is left alone, whatever happens short of a successful exchange with it. -/
theorem quarantine_lasts {owner : NodeId} {ops : List Operation}
    (reached : n.peers = (Roster.empty owner).after ops)
    (quarantined : ∃ p, n.peers.get? id = some p ∧ p.standing = .quarantined)
    (run : ReflTransGen (Happens id) n next) : next.Avoids id := by
  have start : n.peers.Shuns id := ⟨reached ▸ Roster.every_judged_after owner ops, quarantined⟩
  have held : next.peers.Shuns id := by
    induction run with
    | refl => exact start
    | tail _ happens ih => exact happens.shuns ih
  exact avoids_of_shuns held

/-- A node that knows one peer, which it was told not to trust. -/
def wary : Node :=
  { empty "a" with
    peers := (Roster.empty "a").after [.register ⟨"b", "b:1", [], some 0.05⟩ 0] }

/-- The same node when the peer has been registered anew. -/
def persuaded : Node :=
  { wary with peers := wary.peers.perform (.register ⟨"b", "b:2", [7], some 1.0⟩ 9) }

/-- The same node when the peer has asked for its state. -/
def asked : Node := persuaded.touchPeer "b" 12

/-- The same node after a round and a failed exchange. -/
def wearied : Node :=
  { asked with peers := asked.peers.after [.refresh 20, .fail "b" 30] }

/-- Registered again, heard from and passed over in a round, the peer is quarantined still. -/
theorem wary_avoids : (∃ p, wary.peers.get? "b" = some p ∧ p.standing = .quarantined) ∧
    ReflTransGen (Happens "b") wary wearied ∧ wearied.Avoids "b" := by
  have quarantined : ∃ p, wary.peers.get? "b" = some p ∧ p.standing = .quarantined :=
    ⟨_, rfl, rfl⟩
  have registered : Happens "b" wary persuaded :=
    @Happens.introduced "b" wary persuaded ⟨"b", "b:2", [7], some 1.0⟩ 9 rfl
  have heard : Happens "b" persuaded asked :=
    @Happens.heard "b" persuaded asked ⟨"b", "a", 12, .empty, .request⟩ 12 _ rfl
  have completed : Happens "b" asked { asked with peers := asked.peers.refreshAll 20 } := by
    have idle : (((Network.empty 20).setNode asked).startRound asked ⟨1, 3, 1, none⟩ [] 0).2 = [] :=
      rfl
    refine @Happens.round "b" asked _ ((Network.empty 20).setNode asked) ⟨1, 3, 1, none⟩ [] none
      ?_ rfl ?_
    · intro q x found
      rw [Network.node?_setNode] at found
      split at found
      next same => exact same ▸ congrArg Node.id (Option.some.inj found).symm
      next => nomatch found
    · rw [Network.round_eq, idle, List.mergeSort_nil]
      rfl
  have run := ReflTransGen.single registered |>.tail heard |>.tail completed |>.tail (.failed 30)
  exact ⟨quarantined, run, quarantine_lasts rfl quarantined run⟩

end Node

end ThreatGossip

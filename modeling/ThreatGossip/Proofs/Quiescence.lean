import Mathlib.Data.List.Sublists
import ThreatGossip.Proofs.Exchanges
import ThreatGossip.Proofs.Traffic
/-!
Quiet times, in which nothing is written. What one node holds reaches another along a chain of
exchanges that follow each other, whatever else goes on between them and while they last.
-/
namespace ThreatGossip.Fleet

open Relation (ReflTransGen)

/-- What a quiet time keeps. -/
structure Continues (s t : Fleet) : Prop where
  invariant : Invariant t
  log : t.log = s.log
  past : s.past ⊆ t.past
  below : ∀ bound, (∀ m ∈ s.past, m.snapshot ≤ bound) → ∀ m ∈ t.past, m.snapshot ≤ bound
  names : ∀ m, t.Has m → ∃ a, s.Has a ∧ a.id = m.id

section Steps

variable {s t u : Fleet}

theorem sent_subset_of_steps (steps : ReflTransGen Traffic s t) : s.sent ⊆ t.sent := by
  induction steps with
  | refl => exact subset_rfl
  | tail _ step ih => exact ih.trans step.sent_subset

theorem Invariant.continues (inv : Invariant s) (steps : ReflTransGen Traffic s t)
    (faithful : t.Faithful) : Continues s t := by
  induction steps with
  | refl => exact ⟨inv, rfl, subset_rfl, fun _ below => below, fun m has => ⟨m, has, rfl⟩⟩
  | tail _ step ih =>
      have before := faithful.mono step.sent_subset
      have kept := ih before
      refine ⟨kept.invariant.gossip step, step.log_eq.trans kept.log,
        kept.past.trans (step.past_subset kept.invariant before), fun bound below => ?_,
        fun m has => ?_⟩
      · exact step.below kept.invariant before (kept.below bound below)
      · obtain ⟨b, there, same⟩ := step.names kept.invariant before has
        obtain ⟨a, start, name⟩ := kept.names b there
        exact ⟨a, start, name.trans same⟩

theorem Reachable.steps {ids : List NodeId} (run : Reachable ids s)
    (steps : ReflTransGen Traffic s t) : Reachable ids t := by
  induction steps with
  | refl => exact run
  | tail _ step ih => exact ih.gossip step

theorem Continues.grown (h : Continues s t) {a : Node} (old : a ∈ s.past) :
    ∃ b, t.Has b ∧ b.id = a.id ∧ a.snapshot ≤ b.snapshot :=
  (h.invariant.past a (h.past old)).2.2

end Steps

/-- What exchanges are made of: a delta that is sent and later taken in, or a whole call of
`syncWith` from one node to another. -/
inductive Event
  | sent (m : Message)
  | taken (id : NodeId) (m : Message)
  | synced (initiator peer : NodeId)

/-- The event takes the fleet from one state to another. A call of `syncWith` runs on a network with
the nodes of the fleet, and other traffic may pass until it is over. -/
inductive Mark (s : Fleet) : Event → Fleet → Prop
  | sent {n : Node} {peer : NodeId} {m : Message} (now : Millis) :
      s.Has n → n.deltaMessage peer now = .ok m → Mark s (.sent m) (s.post ⟨m, n⟩)
  | taken {n next : Node} {l : Letter} {ack : Acknowledgment} (now : Millis) :
      s.Has n → l ∈ s.sent → n.handle l.message now = .ok (next, ack) →
      Mark s (.taken n.id l.message) (s.answer next ack next)
  | synced {t : Fleet} {net net' : Network} {n : Node} {peer : Peer} {policy : Policy}
      {m : Message} : s.Has n → net.nodes = s.nodes → net.Honest →
      n.deltaMessage peer.id net.now = .ok m → net.syncWith n peer policy = (net', .ok ()) →
      ReflTransGen Traffic (s.post ⟨m, n⟩) t → t.nodes = net'.nodes →
      Mark s (.synced n.id peer.id) t

/-- A run without local writes, with some of its events. -/
inductive Quiet (s : Fleet) : List Event → Fleet → Prop
  | start : Quiet s [] s
  | traffic {events : List Event} {t u : Fleet} : Quiet s events t → Traffic t u → Quiet s events u
  | event {events : List Event} {t u : Fleet} {e : Event} :
      Quiet s events t → Mark t e u → Quiet s (events ++ [e]) u

/-- Exchanges that follow each other from one node to another. The next one need not wait until the
acknowledgment is booked. -/
inductive Chain : NodeId → List Event → NodeId → Prop
  | here (id : NodeId) : Chain id [] id
  | exchange {m : Message} {first id last : NodeId} {rest : List Event} :
      m.sender = first → Chain id rest last → Chain first (.sent m :: .taken id m :: rest) last
  | sync {first id last : NodeId} {rest : List Event} :
      Chain id rest last → Chain first (.synced first id :: rest) last

section Runs

variable {s t : Fleet} {events : List Event}

theorem Mark.steps {e : Event} (mark : Mark s e t) : ReflTransGen Traffic s t := by
  cases mark with
  | sent now has built => exact .single (.delta now has built)
  | taken now has member handled => exact .single (.deliver now has member handled)
  | synced has _ _ built _ steps _ => exact .head (.delta _ has built) steps

theorem Quiet.steps (quiet : Quiet s events t) : ReflTransGen Traffic s t := by
  induction quiet with
  | start => exact .refl
  | traffic _ step ih => exact ih.tail step
  | event _ mark ih => exact ih.trans mark.steps

/-- The first of some events that a run meets in their order, and what is left of the run. -/
theorem Quiet.meet (quiet : Quiet s events t) {e : Event} {rest : List Event}
    (sub : (e :: rest).Sublist events) : ∃ p q later, ReflTransGen Traffic s p ∧ Mark p e q ∧
      Quiet q later t ∧ rest.Sublist later := by
  -- A run grows at its end, so its last event is the last of the others or none of them.
  induction quiet generalizing rest with
  | start => cases sub
  | traffic _ step ih =>
      obtain ⟨p, q, later, before, mark, after, left⟩ := ih sub
      exact ⟨p, q, later, before, mark, after.traffic step, left⟩
  | @event events t u last quiet mark ih =>
      obtain ⟨front, back, split, infront, behind⟩ := List.sublist_append_iff.mp sub
      cases front with
      | nil =>
          obtain rfl : e :: rest = back := split
          cases behind with
          | cons _ none => cases none
          | cons_cons _ none =>
              cases none
              exact ⟨t, u, [], quiet.steps, mark, .start, .slnil⟩
      | cons first front =>
          obtain ⟨rfl, rfl⟩ := List.cons.inj split
          obtain ⟨p, q, later, before, met, after, left⟩ := ih infront
          exact ⟨p, q, _, before, met, after.event mark, left.append behind⟩

theorem deltaMessage_brings {n : Node} {peer : NodeId} {now : Millis} {m : Message}
    (built : n.deltaMessage peer now = .ok m) : n.id = m.sender ∧ m.payload ≠ .request := by
  obtain ⟨since, -, rfl⟩ := deltaMessage_spec built
  exact ⟨rfl, Payload.noConfusion⟩

/-- The sender of a delta has sent a letter that speaks of its state. -/
theorem Mark.letter {m : Message} (mark : Mark s (.sent m) t) : ∃ n, s.Has n ∧ n.id = m.sender ∧
    ⟨m, n⟩ ∈ t.sent ∧ m.payload ≠ .request := by
  cases mark with
  | @sent n peer m now has built =>
      obtain ⟨sender, brings⟩ := deltaMessage_brings built
      exact ⟨n, has, sender, Set.mem_insert _ _, brings⟩

theorem Invariant.gains (inv : Invariant s) (faithful : s.Faithful) {n origin next : Node}
    (has : s.Has n) {m : Message} (letter : ⟨m, origin⟩ ∈ s.sent) (brings : m.payload ≠ .request)
    {now : Millis} {ack : Acknowledgment} (handled : n.handle m now = .ok (next, ack)) :
    origin.snapshot ≤ next.snapshot := by
  rcases inv.absorbs faithful has letter handled with ⟨request, -⟩ | absorbs
  · exact absurd request brings
  · exact absorbs.le_right

theorem Mark.taken_gains {id : NodeId} {m : Message} (mark : Mark s (.taken id m) t)
    (inv : Invariant s) (faithful : s.Faithful) {origin : Node} (letter : ⟨m, origin⟩ ∈ s.sent)
    (brings : m.payload ≠ .request) :
    ∃ next, t.Has next ∧ next.id = id ∧ origin.snapshot ≤ next.snapshot := by
  cases mark with
  | @taken n next l ack now has member handled =>
      have gained := inv.gains faithful has letter brings handled
      exact ⟨next, has_become, Node.id_of_handle handled, gained⟩

/-- A delta is handled by the node that it is for, which is not its sender. -/
theorem Invariant.addressee (inv : Invariant s) {n other next : Node} (has : s.Has n)
    {peer : NodeId} {m : Message} {at_time now : Millis} {ack : Acknowledgment}
    (built : n.deltaMessage peer at_time = .ok m) (handled : other.handle m now = .ok (next, ack)) :
    next.id = peer ∧ next.id ≠ n.id := by
  obtain ⟨since, claimed, rfl⟩ := deltaMessage_spec built
  have accepted := (Node.handle_cases handled).1
  have named := (inv.rosters n has).ne_of_version claimed
  rw [Node.id_of_handle handled]
  constructor
  · exact (accepted.addressed.resolve_left named).symm
  · exact Ne.symm accepted.foreign

theorem Invariant.named_of_nodes (inv : Invariant s) {net : Network} (nodes : net.nodes = s.nodes)
    (id : NodeId) (x : Node) (found : net.node? id = some x) : x.id = id := by
  rw [Network.node?, nodes] at found
  exact inv.named id x found

/-- After a call of `syncWith` the peer has what the caller had. -/
theorem Mark.synced_gains {i j : NodeId} (mark : Mark s (.synced i j) t) (inv : Invariant s)
    (faithful : t.Faithful) : ∃ n next, s.Has n ∧ n.id = i ∧ t.Has next ∧ next.id = j ∧
      n.snapshot ≤ next.snapshot := by
  cases mark with
  | @synced t net net' n peer policy m has nodes honest built success steps after =>
      have posted := inv.gossip (.delta net.now has built)
      have letter : ⟨m, n⟩ ∈ (s.post ⟨m, n⟩).sent := Set.mem_insert _ _
      have earlier := faithful.mono (sent_subset_of_steps steps)
      have read : Message.format.decode (Message.format.encode m) = .ok m :=
        earlier.messages ⟨m, n⟩ letter
      obtain ⟨sender, brings⟩ := deltaMessage_brings built
      have same : ∀ id, net.node? id = s.nodes.get? id := fun id => by rw [Network.node?, nodes]
      obtain ⟨other, next, answer, ack, known, handled, -, changed⟩ := Network.syncWith_nodes honest
        (inv.named_of_nodes nodes) ((same n.id).trans has) built read sender.symm success
      obtain ⟨reached, elsewhere⟩ := inv.addressee has built handled
      have there : (s.post ⟨m, n⟩).Has other := (same other.id).symm.trans known
      have gained := posted.gains earlier there letter brings handled
      refine ⟨n, next, has, rfl, ?_, reached, gained⟩
      unfold Has
      rw [after, changed, SortedMap.get?_insert, if_neg elsewhere, SortedMap.get?_insert,
        if_pos rfl]

/-- Every call of `syncWith` that succeeds is such an event, if its delta comes through. -/
theorem Mark.of_syncWith {net net' : Network} {n : Node} {peer : Peer} {policy : Policy}
    {m : Message} (inv : Invariant s) (has : s.Has n) (nodes : net.nodes = s.nodes)
    (honest : net.Honest) (built : n.deltaMessage peer.id net.now = .ok m)
    (read : Message.format.decode (Message.format.encode m) = .ok m)
    (success : net.syncWith n peer policy = (net', .ok ())) :
    ∃ t, t.nodes = net'.nodes ∧ Mark s (.synced n.id peer.id) t := by
  have same : ∀ id, net.node? id = s.nodes.get? id := fun id => by rw [Network.node?, nodes]
  obtain ⟨sender, brings⟩ := deltaMessage_brings built
  obtain ⟨other, next, answer, ack, known, handled, answered, changed⟩ := Network.syncWith_nodes
    honest (inv.named_of_nodes nodes) ((same n.id).trans has) built read sender.symm success
  have silent : answer.reply = none := by
    rw [Option.eq_none_iff_forall_ne_some]
    exact fun reply given => brings (Node.reply_of_handle handled given).1
  obtain rfl := Acknowledgment.eq_of_decode silent answered
  obtain ⟨reached, elsewhere⟩ := inv.addressee has built handled
  have there : (s.post ⟨m, n⟩).Has other := (same other.id).symm.trans known
  have delivered : Traffic (s.post ⟨m, n⟩) _ :=
    .deliver net.now there (Set.mem_insert _ _) handled
  have kept : ((s.post ⟨m, n⟩).answer next ack next).Has n :=
    has_become_iff.mpr (.inr ⟨elsewhere.symm, has⟩)
  have given : (peer.id, ack) ∈ ((s.post ⟨m, n⟩).answer next ack next).answers :=
    .inl (by rw [reached])
  refine ⟨_, ?_, .synced has nodes honest built success
    ((ReflTransGen.single delivered).tail (.book net.now kept given)) ?_⟩
  all_goals
    rw [changed, nodes]
    rfl

/-- What a node holds at the start of a quiet time has reached the end of a chain at its end. -/
theorem Quiet.carried (quiet : Quiet s events t) (inv : Invariant s) (faithful : t.Faithful)
    {first last : NodeId} {hops : List Event} (chain : Chain first hops last)
    (sub : hops.Sublist events) {a : Node} (old : a ∈ s.past) (name : a.id = first) :
    ∃ b, t.Has b ∧ b.id = last ∧ a.snapshot ≤ b.snapshot := by
  induction chain generalizing s events a with
  | here id =>
      obtain ⟨b, there, same, grown⟩ := (inv.continues quiet.steps faithful).grown old
      exact ⟨b, there, same.trans name, grown⟩
  | @exchange m first id last rest author _ ih =>
      obtain ⟨p, q, later, before, sent, after, left⟩ := quiet.meet sub
      obtain ⟨p', q', later', between, taken, after', left'⟩ := after.meet left
      -- The states in between are faithful because letters are never lost.
      have faithful' : p'.Faithful := faithful.mono
        (sent_subset_of_steps (taken.steps.trans after'.steps))
      have met := inv.continues before
        (faithful'.mono (sent_subset_of_steps (sent.steps.trans between)))
      obtain ⟨n, has, sender, letter, brings⟩ := sent.letter
      obtain ⟨a', there, same, grown⟩ := met.grown old
      obtain rfl := there.unique has (same.trans (name.trans (author.symm.trans sender.symm)))
      have met' := met.invariant.continues (sent.steps.trans between) faithful'
      obtain ⟨next, present, reached, gained⟩ := taken.taken_gains met'.invariant faithful'
        (sent_subset_of_steps between letter) brings
      have invariant := (met'.invariant.continues taken.steps
        (faithful.mono (sent_subset_of_steps after'.steps))).invariant
      obtain ⟨b, final, named, above⟩ :=
        ih after' invariant left' (invariant.present next present) reached
      exact ⟨b, final, named, le_trans grown (le_trans gained above)⟩
  | @sync first id last rest _ ih =>
      obtain ⟨p, q, later, before, synced, after, left⟩ := quiet.meet sub
      have faithful' : q.Faithful := faithful.mono (sent_subset_of_steps after.steps)
      have met := inv.continues before (faithful'.mono (sent_subset_of_steps synced.steps))
      obtain ⟨n, next, has, caller, present, reached, gained⟩ :=
        synced.synced_gains met.invariant faithful'
      obtain ⟨a', there, same, grown⟩ := met.grown old
      obtain rfl := there.unique has (same.trans (name.trans caller.symm))
      have invariant := (met.invariant.continues synced.steps faithful').invariant
      obtain ⟨b, final, named, above⟩ :=
        ih after invariant left (invariant.present next present) reached
      exact ⟨b, final, named, le_trans grown (le_trans gained above)⟩

end Runs

end ThreatGossip.Fleet

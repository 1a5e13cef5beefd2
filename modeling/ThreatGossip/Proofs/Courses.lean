import ThreatGossip.Proofs.Convergence
import ThreatGossip.Proofs.Deliveries
/-!
The course of a network. Nodes write, keep their rosters, send messages off and book what comes of
them; addresses go down, come up and slow down; the wall clock is set as it likes. A message that
was sent off arrives at any later time, or more than once, or never, and its sender may book a
failure even if it arrived. Every course is mirrored by a fleet, step after step, so what holds of
fleets holds of networks.
-/
namespace ThreatGossip

open Json (Document)
open Relation (ReflTransGen)

/-- A network, with all messages that were sent off on it and all acknowledgments that came back. -/
structure Course where
  net : Network
  flights : Set Flight
  answers : Set (Flight × Acknowledgment)

/-- The messages that a node writes to a known peer, by what they are for. -/
inductive Node.Writes (n : Node) (peer : NodeId) (now : Millis) : Purpose → Message → Prop
  | delta {m : Message} : n.deltaMessage peer now = .ok m → n.Writes peer now .push m
  | full : n.peers.contains peer = true → n.Writes peer now .push (n.fullMessage peer now)
  | request : n.peers.contains peer = true → n.Writes peer now .pull (n.requestMessage peer now)

namespace Course

/-- New nodes of the given names, and no addresses. -/
def start (ids : List NodeId) (now : Millis) : Course :=
  ⟨{ Network.empty now with nodes := (Fleet.start ids).nodes }, ∅, ∅⟩

def Has (c : Course) (n : Node) : Prop := c.net.node? n.id = some n

def setNode (c : Course) (n : Node) : Course := { c with net := c.net.setNode n }

theorem setNode_setNode {c : Course} {a b : Node} (same : b.id = a.id) :
    (c.setNode a).setNode b = c.setNode b :=
  congrArg (fun net => ({ c with net } : Course)) (Network.setNode_setNode same)

def depart (c : Course) (f : Flight) : Course := { c with flights := insert f c.flights }

/-- A local write. A document that is stored comes back from every message that holds it, and is not
stamped with the greatest timestamp; neither is a deletion. -/
inductive Write (c : Course) : Course → Prop
  | put {n n' : Node} (key : String) (d : Document) : c.Has n →
      n.putThreat? key d c.net.now = some n' → (d.isNull = false → Travels d) →
      (∀ r, n'.threats.register? key = some r → r.timestamp ≠ maxCount) → Write c (c.setNode n')
  | delete {n n' : Node} (key : String) : c.Has n →
      n.deleteThreat? key c.net.now = some n' →
      (∀ r, n'.threats.register? key = some r → r.timestamp ≠ maxCount) → Write c (c.setNode n')
  | addRule {n : Node} (rule tag : String) : c.Has n → Write c (c.setNode (n.addRule rule tag))
  | removeRule {n : Node} (rule : String) : c.Has n → Write c (c.setNode (n.removeRule rule))
  | addMetric {n : Node} (amount : UInt64) : c.Has n → Write c (c.setNode (n.addMetric amount))
  | subtractMetric {n : Node} (amount : UInt64) :
      c.Has n → Write c (c.setNode (n.subtractMetric amount))

/-- Anything else: the clock is set, an address changes, a node keeps its roster, sends a message
off, is handed one, or books what came of one that it sent. -/
inductive Move (c : Course) : Course → Prop
  | wait (now : Millis) : Move c { c with net := { c.net with now } }
  | listen (address : String) (id : NodeId) :
      Move c { c with net := c.net.listen address (.node id) }
  | setDown (address : String) (down : Bool) :
      Move c { c with net := c.net.setDown address down }
  | setDelay (address : String) (delay : Nat) :
      Move c { c with net := c.net.setDelay address delay }
  | addPeer {n n' : Node} (i : Introduction) :
      c.Has n → n.addPeer i c.net.now = .ok n' → Move c (c.setNode n')
  | removePeer {n : Node} (id : NodeId) : c.Has n → Move c (c.setNode (n.removePeer id))
  | prune {n : Node} (policy : Policy) :
      c.Has n → Move c (c.setNode (n.prune policy c.net.now).1)
  | select {n : Node} (policy : Policy) (draws : List Nat) :
      c.Has n → Move c (c.setNode (n.select policy draws c.net.now).1)
  | depart {n : Node} {peer : NodeId} {purpose : Purpose} {m : Message} (address : String)
      (timeout time : Nat) : c.Has n → n.Writes peer c.net.now purpose m →
      Move c (c.depart (c.net.depart n.id peer address purpose m timeout time))
  | taken {f : Flight} {r : Responder} {net : Network} {ack : Acknowledgment} :
      f ∈ c.flights → f.fate = .arrives r → c.net.deliver r f.message = (net, .ok ack) →
      Move c ⟨net, c.flights, insert (f, ack) c.answers⟩
  | refused {f : Flight} {r : Responder} {net : Network} {e : TransportError} :
      f ∈ c.flights → f.fate = .arrives r → c.net.deliver r f.message = (net, .error e) →
      Move c { c with net }
  | conclude {f : Flight} {outcome : Except ExchangeError Acknowledgment} : f ∈ c.flights →
      (∀ ack, outcome = .ok ack → (f, ack) ∈ c.answers) →
      Move c { c with
        net := c.net.adjustNode f.initiator fun n =>
          (n.conclude f.purpose f.peer c.net.now outcome).1 }

/-- The courses that a network of new nodes can take. -/
inductive Reached (ids : List NodeId) (now : Millis) : Course → Prop
  | start : Reached ids now (start ids now)
  | write {c d : Course} : Reached ids now c → Write c d → Reached ids now d
  | move {c d : Course} : Reached ids now c → Move c d → Reached ids now d

end Course

namespace Fleet

/-- A fleet in which every document travels and no timestamp is the greatest. -/
structure Sound (s : Fleet) : Prop where
  invariant : Invariant s
  showing : s.Showing
  bounded : Unsaturated s.log
  travels : ∀ w ∈ s.log, ∀ d, w.register.value = some d → Travels d

section Sound

variable {s t : Fleet} {n : Node}

theorem sound_start (ids : List NodeId) : (start ids).Sound :=
  ⟨invariant_start ids, showing_start ids, fun _ member => absurd member List.not_mem_nil,
    fun _ member => absurd member List.not_mem_nil⟩

/-- Whatever a node holds was written. -/
theorem Sound.documents (h : s.Sound) (old : n ∈ s.past) : n.snapshot.EachDocument Travels := by
  rintro ⟨key, r⟩ member d live
  obtain ⟨w, ⟨listed, -⟩, shown, -⟩ :=
    h.showing.shows n old key r (SortedMap.get?_eq_some_iff.mpr member)
  exact h.travels w listed d (shown.value ▸ live)

theorem Sound.faithful (h : s.Sound) : s.Faithful := by
  constructor
  · intro l member
    obtain ⟨origin, genuine⟩ := h.invariant.sent l member
    have speaks := genuine.speaks
    have documents := h.documents origin
    refine Message.decode_encode_of_travels ?_
    unfold Message.EachDocument
    generalize l.message.payload = payload at speaks ⊢
    cases speaks with
    | delta now named known => exact Registers.EachDocument.delta documents _ now
    | full | request | response => trivial
  · intro l member text holds
    obtain ⟨origin, genuine⟩ := h.invariant.sent l member
    have speaks := genuine.speaks
    have spoken : text = l.origin.fullState := by
      rcases holds with payload | payload
      all_goals
        rw [payload] at speaks
        cases speaks
        rfl
    rw [spoken]
    exact Snapshot.decode_encode_of_travels (h.documents origin)

theorem Sound.gossip (h : s.Sound) (step : Traffic s t) : t.Sound where
  invariant := h.invariant.gossip step
  showing := h.showing.gossip h.invariant h.faithful step
  bounded := step.log_eq ▸ h.bounded
  travels := step.log_eq ▸ h.travels

theorem Sound.write (h : s.Sound) (step : Local s t) (bounded : Unsaturated t.log)
    (travels : ∀ w ∈ t.log, ∀ d, w.register.value = some d → Travels d) : t.Sound :=
  ⟨h.invariant.write step, h.showing.write h.invariant h.bounded step, bounded, travels⟩

/-- What is written last in a sound fleet is sound if its stamp and its document are. -/
theorem Sound.record (h : s.Sound) {key : String} {r : Register (Option Document)}
    (step : Local s (s.record n ⟨key, r⟩)) (stamp : r.timestamp ≠ maxCount)
    (travels : ∀ d, r.value = some d → Travels d) : (s.record n ⟨key, r⟩).Sound := by
  refine h.write step ?_ ?_
  · exact List.forall_mem_cons.mpr ⟨stamp, h.bounded⟩
  · exact List.forall_mem_cons.mpr ⟨travels, h.travels⟩

end Sound

end Fleet

namespace Course

/-- The fleet is what has become of the course: it has the same nodes, and all that is under way is
known to it. -/
structure Mirrors (c : Course) (s : Fleet) : Prop where
  sound : s.Sound
  nodes : s.nodes = c.net.nodes
  responders : ∀ address e, c.net.endpoints.get? address = some e → ∃ id, e.responder = .node id
  rosters : ∀ n, c.Has n → n.peers.Every Peer.Filed
  flights : ∀ f ∈ c.flights, f.message.recipient = f.peer ∧ f.peer ≠ "" ∧
    (∀ r, f.fate = .arrives r → ∃ id, r = .node id) ∧ ∃ origin, ⟨f.message, origin⟩ ∈ s.sent
  answers : ∀ f ack, (f, ack) ∈ c.answers → (f.peer, ack) ∈ s.answers ∧
    ∀ m, ack.reply = some m → ∃ origin, ⟨m, origin⟩ ∈ s.sent

section Mirrors

variable {c : Course} {s t : Fleet} {n next : Node}

theorem mirrors_start (ids : List NodeId) (now : Millis) :
    (start ids now).Mirrors (Fleet.start ids) where
  sound := Fleet.sound_start ids
  nodes := rfl
  responders := fun _ _ found => nomatch found
  rosters := by
    intro n has
    rw [Fleet.eq_empty_of_start has]
    exact Roster.every_empty _
  flights := fun _ member => member.elim
  answers := fun _ _ member => member.elim

theorem Mirrors.has_iff (h : c.Mirrors s) : s.Has n ↔ c.Has n := by
  unfold Fleet.Has Has Network.node?
  rw [h.nodes]

theorem Mirrors.named (h : c.Mirrors s) {id : NodeId} (found : c.net.node? id = some n) :
    n.id = id :=
  h.sound.invariant.named id n (h.nodes ▸ found)

theorem Mirrors.has_of_node? (h : c.Mirrors s) {id : NodeId} (found : c.net.node? id = some n) :
    c.Has n := by
  rw [← h.named found] at found
  exact found

/-- A node passes into a new state, in the course as in the fleet. -/
theorem Mirrors.set (h : c.Mirrors s) (filed : next.peers.Every Peer.Filed) (sound : t.Sound)
    (nodes : t.nodes = s.nodes.insert next.id next) (sent : s.sent ⊆ t.sent)
    (answers : s.answers ⊆ t.answers) : (c.setNode next).Mirrors t where
  sound := sound
  nodes := by
    rw [nodes, h.nodes]
    rfl
  responders := h.responders
  rosters := by
    intro m has
    have found : (c.net.setNode next).node? m.id = some m := has
    rw [Network.node?_setNode] at found
    split at found
    next =>
      obtain rfl := Option.some.inj found
      exact filed
    next => exact h.rosters m found
  flights := fun f member =>
    have ⟨addressed, named, fate, origin, letter⟩ := h.flights f member
    ⟨addressed, named, fate, origin, sent letter⟩
  answers := fun f ack member =>
    have ⟨given, replies⟩ := h.answers f ack member
    ⟨answers given, fun m reply => (replies m reply).imp fun _ letter => sent letter⟩

theorem Mirrors.become (h : c.Mirrors s) (filed : next.peers.Every Peer.Filed)
    (step : Fleet.Traffic s (s.become next)) : (c.setNode next).Mirrors (s.become next) :=
  h.set filed (h.sound.gossip step) rfl subset_rfl subset_rfl

theorem Mirrors.twice {a b : Node} (h : ((c.setNode a).setNode b).Mirrors s) (same : b.id = a.id) :
    (c.setNode b).Mirrors s :=
  setNode_setNode same ▸ h

/-- A local write to the rules or the metrics. -/
theorem Mirrors.adjust (h : c.Mirrors s) (filed : next.peers.Every Peer.Filed)
    (step : Fleet.Local s (s.become next)) : (c.setNode next).Mirrors (s.become next) :=
  h.set filed (h.sound.write step h.sound.bounded h.sound.travels) rfl subset_rfl subset_rfl

/-- A node takes in a message that was sent, and answers it. -/
theorem Mirrors.taken (h : c.Mirrors s) (has : c.Has n) {m : Message} {origin : Node}
    (letter : ⟨m, origin⟩ ∈ s.sent) {now : Millis} {ack : Acknowledgment}
    (handled : n.handle m now = .ok (next, ack)) :
    (c.setNode next).Mirrors (s.answer next ack next) ∧
      Fleet.Traffic s (s.answer next ack next) := by
  have step := Fleet.Traffic.deliver now (h.has_iff.mpr has) letter handled
  exact ⟨h.set (Node.filed_of_handle handled (h.rosters n has)) (h.sound.gossip step) rfl
    Set.subset_union_left (Set.subset_insert _ _), step⟩

/-- What no node sees may change: the time, the count of messages, and addresses of nodes. -/
theorem Mirrors.elsewhere (h : c.Mirrors s) {net : Network} (nodes : net.nodes = c.net.nodes)
    (responders : ∀ address e, net.endpoints.get? address = some e → ∃ id, e.responder = .node id) :
    Mirrors { c with net } s where
  sound := h.sound
  nodes := h.nodes.trans nodes.symm
  responders := responders
  rosters := by
    intro n has
    refine h.rosters n ?_
    have found : net.nodes.get? n.id = some n := has
    rwa [nodes] at found
  flights := h.flights
  answers := h.answers

theorem Mirrors.adjustEndpoint (h : c.Mirrors s) {address : String} {f : Endpoint → Endpoint}
    (same : ∀ e, (f e).responder = e.responder) :
    Mirrors { c with net := c.net.adjustEndpoint address f } s := by
  refine h.elsewhere ?_ ?_
  · unfold Network.adjustEndpoint
    split <;> rfl
  · unfold Network.adjustEndpoint
    split
    next e known =>
      intro address' e' found
      rw [SortedMap.get?_insert] at found
      split at found
      next =>
        obtain rfl := Option.some.inj found
        rw [same]
        exact h.responders address e known
      next => exact h.responders address' e' found
    next => exact h.responders

end Mirrors

section Steps

variable {c d : Course} {s t : Fleet} {n : Node}

theorem Mirrors.write (h : c.Mirrors s) (step : Write c d) : ∃ t, d.Mirrors t := by
  cases step with
  | @put n n' key document has put travels stamped =>
      obtain ⟨m, stored, rfl⟩ := Option.map_eq_some_iff.mp put
      have wrote := ((RegisterMap.put?_spec stored).2.2 key).trans (if_pos rfl)
      have step := Fleet.Local.put key document c.net.now (h.has_iff.mpr has) put wrote
      refine ⟨_, h.set (h.rosters n has) (h.sound.record step (stamped _ wrote) ?_) rfl subset_rfl
        subset_rfl⟩
      intro e value
      have value : (if document.isNull then none else some document) = some e := value
      split at value
      next => nomatch value
      next live =>
        obtain rfl := Option.some.inj value
        exact travels (Bool.eq_false_iff.mpr live)
  | @delete n n' key has put stamped =>
      obtain ⟨m, stored, rfl⟩ := Option.map_eq_some_iff.mp put
      have wrote := ((RegisterMap.put?_spec stored).2.2 key).trans (if_pos rfl)
      have step := Fleet.Local.delete key c.net.now (h.has_iff.mpr has) put wrote
      exact ⟨_, h.set (h.rosters n has) (h.sound.record step (stamped _ wrote)
        fun _ value => nomatch value) rfl subset_rfl subset_rfl⟩
  | @addRule n rule tag has =>
      exact ⟨_, h.adjust (h.rosters n has) (.addRule rule tag (h.has_iff.mpr has))⟩
  | @removeRule n rule has =>
      exact ⟨_, h.adjust (h.rosters n has) (.removeRule rule (h.has_iff.mpr has))⟩
  | @addMetric n amount has =>
      exact ⟨_, h.adjust (h.rosters n has) (.addMetric amount (h.has_iff.mpr has))⟩
  | @subtractMetric n amount has =>
      exact ⟨_, h.adjust (h.rosters n has) (.subtractMetric amount (h.has_iff.mpr has))⟩

theorem Mirrors.depart (h : c.Mirrors s) (has : c.Has n) {peer : NodeId} {purpose : Purpose}
    {m : Message} (writes : n.Writes peer c.net.now purpose m) (address : String)
    (timeout time : Nat) : Fleet.Traffic s (s.post ⟨m, n⟩) ∧
      (c.depart (c.net.depart n.id peer address purpose m timeout time)).Mirrors
        (s.post ⟨m, n⟩) := by
  have here := h.has_iff.mpr has
  have within := h.sound.invariant.rosters n here
  have written : Fleet.Traffic s (s.post ⟨m, n⟩) ∧ m.recipient = peer ∧ peer ≠ "" := by
    have named (known : n.peers.contains peer = true) : peer ≠ "" := by
      rintro rfl
      obtain ⟨p, found⟩ := Roster.contains_iff.mp known
      rw [within.named] at found
      nomatch found
    cases writes with
    | delta built =>
        obtain ⟨since, claimed, message⟩ := Fleet.deltaMessage_spec built
        exact ⟨.delta c.net.now here built, congrArg Message.recipient message,
          within.ne_of_version claimed⟩
    | full known =>
        exact ⟨.full peer c.net.now here (h.sound.invariant.present n here) rfl, rfl, named known⟩
    | request known => exact ⟨.request peer c.net.now here, rfl, named known⟩
  obtain ⟨step, addressed, named⟩ := written
  refine ⟨step, ⟨h.sound.gossip step, h.nodes, h.responders, h.rosters, ?_, fun f ack member => ?_⟩⟩
  · rintro f (rfl | old)
    · refine ⟨?_, ?_, fun r arrives => ?_, n, ?_⟩
      · exact addressed
      · exact named
      · obtain ⟨e, up, rfl⟩ := Network.depart_arrives arrives
        exact h.responders address e (Option.filter_eq_some_iff.mp up).1
      · exact Set.mem_insert _ _
    · obtain ⟨addressed, named, fate, origin, letter⟩ := h.flights f old
      exact ⟨addressed, named, fate, origin, Set.mem_insert_of_mem _ letter⟩
  · obtain ⟨given, replies⟩ := h.answers f ack member
    exact ⟨given, fun m reply => (replies m reply).imp fun _ => Set.mem_insert_of_mem _⟩

/-- What a flight that arrives does: nothing if it is not handled, and otherwise a node takes it in
and its answer comes back. -/
theorem Mirrors.arrive (h : c.Mirrors s) {f : Flight} (member : f ∈ c.flights) (id : NodeId) :
    ((∃ e, c.net.deliver (.node id) f.message = (c.net.counted, .error e)) ∧
        ∀ n result, c.net.node? id = some n → n.handle f.message c.net.now ≠ .ok result) ∨
      ∃ n next ack, c.net.node? id = some n ∧ n.handle f.message c.net.now = .ok (next, ack) ∧
        c.net.deliver (.node id) f.message = (c.net.counted.setNode next, .ok ack) := by
  obtain ⟨-, -, -, origin, letter⟩ := h.flights f member
  have read : Message.format.decode (Message.format.encode f.message) = .ok f.message :=
    h.sound.faithful.messages ⟨f.message, origin⟩ letter
  by_cases handles : ∃ n result, c.net.node? id = some n ∧
      n.handle f.message c.net.now = .ok result
  · obtain ⟨n, ⟨next, ack⟩, here, handled⟩ := handles
    exact .inr ⟨n, next, ack, here, handled, Network.deliver_handled read here handled⟩
  · have unhandled : ∀ n result, c.net.node? id = some n →
        n.handle f.message c.net.now ≠ .ok result :=
      fun n result here handled => handles ⟨n, result, here, handled⟩
    refine .inl ⟨Network.deliver_refused read fun n here => ?_, unhandled⟩
    cases handled : n.handle f.message c.net.now with
    | error e => exact ⟨e, rfl⟩
    | ok result => exact absurd handled (unhandled n result here)

theorem Mirrors.counted (h : c.Mirrors s) : Mirrors { c with net := c.net.counted } s :=
  h.elsewhere rfl h.responders

theorem Mirrors.answered (h : c.Mirrors s) {f : Flight} {ack : Acknowledgment}
    (given : (f.peer, ack) ∈ s.answers)
    (replies : ∀ m, ack.reply = some m → ∃ origin, ⟨m, origin⟩ ∈ s.sent) :
    Mirrors { c with answers := insert (f, ack) c.answers } s where
  sound := h.sound
  nodes := h.nodes
  responders := h.responders
  rosters := h.rosters
  flights := h.flights
  answers := by
    rintro f' ack' (same | old)
    · obtain ⟨rfl, rfl⟩ := Prod.mk.inj same
      exact ⟨given, replies⟩
    · exact h.answers f' ack' old

theorem Mirrors.conclude (h : c.Mirrors s) {f : Flight}
    {outcome : Except ExchangeError Acknowledgment}
    (given : ∀ ack, outcome = .ok ack → (f, ack) ∈ c.answers) (has : c.Has n) :
    ∃ t, ReflTransGen Fleet.Traffic s t ∧
      (c.setNode (n.conclude f.purpose f.peer c.net.now outcome).1).Mirrors t := by
  have here := h.has_iff.mpr has
  have filed : (n.conclude f.purpose f.peer c.net.now outcome).1.peers.Every Peer.Filed :=
    Node.filed_of_conclude (h.rosters n has)
  rcases n.conclude_cases f.purpose f.peer c.net.now outcome with
    same | failed | ⟨ack, arrived, booked⟩ | ⟨ack, m, next, answer, arrived, reply, handled, booked⟩
  · rw [same, setNode, Network.setNode_of_node? has]
    exact ⟨s, .refl, h⟩
  · rw [failed] at filed ⊢
    have step := Fleet.Traffic.fail f.peer c.net.now here
    exact ⟨_, .single step, h.become filed step⟩
  · rw [booked] at filed ⊢
    have step := Fleet.Traffic.book c.net.now here (h.answers f ack (given ack arrived)).1
    exact ⟨_, .single step, h.become filed step⟩
  · rw [booked] at filed ⊢
    obtain ⟨known, replies⟩ := h.answers f ack (given ack arrived)
    obtain ⟨origin, letter⟩ := replies m reply
    obtain ⟨merged, step⟩ := h.taken has letter handled
    have book := Fleet.Traffic.book (s := s.answer next answer next) c.net.now Fleet.has_become
      (Set.mem_insert_of_mem _ known)
    exact ⟨_, (ReflTransGen.single step).tail book, (merged.become filed book).twice rfl⟩

theorem Mirrors.move (h : c.Mirrors s) (step : Move c d) :
    ∃ t, ReflTransGen Fleet.Traffic s t ∧ d.Mirrors t := by
  cases step with
  | wait now => exact ⟨s, .refl, h.elsewhere rfl h.responders⟩
  | listen address id =>
      refine ⟨s, .refl, h.elsewhere rfl fun address' e found => ?_⟩
      have found : (c.net.endpoints.insert address ⟨.node id, false, 0⟩).get? address' = some e :=
        found
      rw [SortedMap.get?_insert] at found
      split at found
      next =>
        obtain rfl := Option.some.inj found
        exact ⟨id, rfl⟩
      next => exact h.responders address' e found
  | setDown address down => exact ⟨s, .refl, h.adjustEndpoint fun _ => rfl⟩
  | setDelay address delay => exact ⟨s, .refl, h.adjustEndpoint fun _ => rfl⟩
  | @addPeer n n' i has added =>
      have step := Fleet.Traffic.addPeer i c.net.now (h.has_iff.mpr has) added
      obtain ⟨peers, registered, rfl⟩ := Node.addPeer_spec added
      exact ⟨_, .single step, h.become ((h.rosters n has).register registered) step⟩
  | @removePeer n id has =>
      have step := Fleet.Traffic.removePeer id (h.has_iff.mpr has)
      exact ⟨_, .single step, h.become ((h.rosters n has).filter _) step⟩
  | @prune n policy has =>
      have step := Fleet.Traffic.refresh c.net.now (h.has_iff.mpr has)
      have filed : (n.peers.refreshAll c.net.now).Every Peer.Filed :=
        (h.rosters n has).refreshAll fun _ _ old => Peer.filed_refresh old.own c.net.now
      have fresh := h.become filed step
      unfold Node.prune
      cases policy.evictionAge with
      | none => exact ⟨_, .single step, fresh⟩
      | some age =>
          generalize refreshed : { n with peers := n.peers.refreshAll c.net.now } = n' at step fresh
          have pruned := Fleet.Traffic.evict (s := s.become n') age c.net.now Fleet.has_become
          have peers : n'.peers = n.peers.refreshAll c.net.now := by rw [← refreshed]
          have both := (fresh.become (peers ▸ filed.filter _) pruned).twice rfl
          refine ⟨_, (ReflTransGen.single step).tail pruned, ?_⟩
          rw [← refreshed] at both ⊢
          exact both
  | @select n policy draws has =>
      have step := Fleet.Traffic.refresh c.net.now (h.has_iff.mpr has)
      exact ⟨_, .single step, h.become ((h.rosters n has).refreshAll
        fun _ _ old => Peer.filed_refresh old.own c.net.now) step⟩
  | @depart n peer purpose m address timeout time has writes =>
      obtain ⟨step, mirrors⟩ := h.depart has writes address timeout time
      exact ⟨_, .single step, mirrors⟩
  | @taken f r net ack member fate delivered =>
      obtain ⟨addressed, named, responder, origin, letter⟩ := h.flights f member
      obtain ⟨id, rfl⟩ := responder r fate
      rcases h.arrive member id with ⟨⟨e, unmoved⟩, -⟩ | ⟨n, next, ack', here, handled, moved⟩
      · nomatch unmoved.symm.trans delivered
      · obtain ⟨rfl, same⟩ := Prod.mk.inj (moved.symm.trans delivered)
        obtain rfl := Except.ok.inj same
        obtain ⟨merged, step⟩ := h.counted.taken (h.has_of_node? here) letter handled
        refine ⟨_, .single step, merged.answered ?_ fun m reply => ⟨next, .inr ⟨reply, rfl⟩⟩⟩
        -- Only the node that the message is for has taken it in.
        have reached : next.id = f.peer := by
          have recipient := (Node.handle_cases handled).1.addressed
          rw [addressed] at recipient
          exact (Node.id_of_handle handled).trans (recipient.resolve_left named).symm
        exact reached ▸ Set.mem_insert _ _
  | @refused f r net e member fate delivered =>
      obtain ⟨-, -, responder, -⟩ := h.flights f member
      obtain ⟨id, rfl⟩ := responder r fate
      rcases h.arrive member id with ⟨⟨e', unmoved⟩, -⟩ | ⟨n, next, ack, here, handled, moved⟩
      · obtain ⟨rfl, -⟩ := Prod.mk.inj (unmoved.symm.trans delivered)
        exact ⟨s, .refl, h.counted⟩
      · nomatch moved.symm.trans delivered
  | @conclude f outcome member given =>
      unfold Network.adjustNode
      cases here : c.net.node? f.initiator with
      | none => exact ⟨s, .refl, h⟩
      | some n => exact h.conclude given (h.has_of_node? here)

/-- Every course is mirrored by a fleet. -/
theorem Reached.mirrored {ids : List NodeId} {now : Millis} (run : Reached ids now c) :
    ∃ s, c.Mirrors s := by
  induction run with
  | start => exact ⟨_, mirrors_start ids now⟩
  | write _ step ih =>
      obtain ⟨s, mirrors⟩ := ih
      exact mirrors.write step
  | move _ step ih =>
      obtain ⟨s, mirrors⟩ := ih
      obtain ⟨t, -, mirrors⟩ := mirrors.move step
      exact ⟨t, mirrors⟩

end Steps

end Course

end ThreatGossip

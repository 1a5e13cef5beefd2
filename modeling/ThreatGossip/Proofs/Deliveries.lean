import ThreatGossip.Proofs.Depths
import ThreatGossip.Proofs.Exchanges
import ThreatGossip.Proofs.Standings
/-!
What becomes of a message that is sent off, step after step: where it goes, what is handed over
there, and what its sender books. An exchange touches nothing but nodes and the count of messages
handed over.
-/
namespace ThreatGossip

/-- An acknowledgment is read as the node gave it. -/
theorem Acknowledgment.decode_encode_of_handle {n next : Node} {m : Message} {now : Millis}
    {ack : Acknowledgment} (handled : n.handle m now = .ok (next, ack)) :
    Acknowledgment.format.decode (Acknowledgment.format.encode ack) = .ok ack := by
  refine decode_encode_of_reply fun reply given => ?_
  obtain ⟨-, rfl⟩ := Node.reply_of_handle handled given
  exact ⟨next.fullState, rfl⟩

namespace Network

/-- One more message handed over. -/
def counted (net : Network) : Network := { net with delivered := net.delivered + 1 }

/-- The node is reached at the address in time. -/
def Reaches (net : Network) (address : String) (id : NodeId) (timeout : Nat) : Prop :=
  ∃ e, net.endpoint? address = some e ∧ e.responder = .node id ∧ e.delay ≤ timeout

section Steps

variable {net : Network}

@[simp] theorem node?_setNode (net : Network) (n : Node) (id : NodeId) :
    (net.setNode n).node? id = if id = n.id then some n else net.node? id :=
  SortedMap.get?_insert net.nodes id n.id n

theorem setNode_setNode {a b : Node} (same : b.id = a.id) :
    (net.setNode a).setNode b = net.setNode b := by
  have nodes : (net.nodes.insert a.id a).insert b.id b = net.nodes.insert b.id b :=
    SortedMap.eq_of_get? fun id => by
      simp only [SortedMap.get?_insert, same]
      split <;> rfl
  exact congrArg (fun nodes => { net with nodes }) nodes

theorem setNode_of_node? {n : Node} (here : net.node? n.id = some n) : net.setNode n = net := by
  have nodes : net.nodes.insert n.id n = net.nodes :=
    SortedMap.eq_of_get? fun id => by
      rw [SortedMap.get?_insert]
      split
      next same => exact (same ▸ here).symm
      next => rfl
  exact congrArg (fun nodes => { net with nodes }) nodes

theorem deliver_unread {r : Responder} {m : Message} {fault : Json.Fault}
    (read : Message.format.decode (Message.format.encode m) = .error fault) :
    net.deliver r m = (net, .error (.undecodable fault)) := by
  unfold deliver
  rw [read]

/-- A node that is reached handles what it reads of the message, and its answer comes back. -/
theorem deliver_node {id : NodeId} {m m' : Message} {n : Node}
    (read : Message.format.decode (Message.format.encode m) = .ok m')
    (here : net.node? id = some n) :
    net.deliver (.node id) m = match n.handle m' net.now with
      | .ok (next, ack) => (net.counted.setNode next, .ok ack)
      | .error e => (net.counted, .error (.rejected e.message)) := by
  have here' : ({ net with delivered := net.delivered + 1 } : Network).node? id = some n := here
  unfold deliver
  simp only [read, here', counted]
  cases handled : n.handle m' net.now with
  | error e => rfl
  | ok result =>
      dsimp only
      rw [Acknowledgment.decode_encode_of_handle handled]

/-- An address of a node that is not there answers with an error. -/
theorem deliver_unknown {id : NodeId} {m m' : Message}
    (read : Message.format.decode (Message.format.encode m) = .ok m')
    (nobody : net.node? id = none) : ∃ e, net.deliver (.node id) m = (net.counted, .error e) := by
  have nobody' : ({ net with delivered := net.delivered + 1 } : Network).node? id = none := nobody
  unfold deliver
  simp only [read, nobody', counted]
  exact ⟨_, rfl⟩

/-- A node that accepts a message is left as it handles it. -/
theorem deliver_handled {id : NodeId} {m : Message} {n next : Node} {ack : Acknowledgment}
    (read : Message.format.decode (Message.format.encode m) = .ok m) (here : net.node? id = some n)
    (handled : n.handle m net.now = .ok (next, ack)) :
    net.deliver (.node id) m = (net.counted.setNode next, .ok ack) := by
  rw [deliver_node read here, handled]

/-- Otherwise nothing is handed over. -/
theorem deliver_refused {id : NodeId} {m : Message}
    (read : Message.format.decode (Message.format.encode m) = .ok m)
    (refused : ∀ n, net.node? id = some n → ∃ e, n.handle m net.now = .error e) :
    ∃ e, net.deliver (.node id) m = (net.counted, .error e) := by
  cases here : net.node? id with
  | none => exact deliver_unknown read here
  | some n =>
      obtain ⟨e, handled⟩ := refused n here
      rw [deliver_node read here, handled]
      exact ⟨_, rfl⟩

/-- A fixed endpoint answers the same in every network, and no node notices. -/
theorem deliver_fixed {r : Responder} (fixed : ∀ id, r ≠ .node id) (m : Message) :
    ∃ answer, ∀ net : Network,
      ((net.deliver r m).1 = net ∨ (net.deliver r m).1 = net.counted) ∧
        (net.deliver r m).2 = answer := by
  cases read : Message.format.decode (Message.format.encode m) with
  | error fault =>
      refine ⟨.error (.undecodable fault), fun net => ?_⟩
      rw [deliver_unread read]
      exact ⟨.inl rfl, rfl⟩
  | ok m' =>
      unfold deliver
      simp only [read]
      cases r with
      | node id => exact absurd rfl (fixed id)
      | refusing reason => exact ⟨_, fun _ => ⟨.inr rfl, rfl⟩⟩
      | fixed ack =>
          dsimp only
          cases Acknowledgment.format.decode (Acknowledgment.format.encode ack) with
          | error fault => exact ⟨_, fun _ => ⟨.inr rfl, rfl⟩⟩
          | ok ack' => exact ⟨_, fun _ => ⟨.inr rfl, rfl⟩⟩

/-- An answer of a node says that it has handled what it read. -/
theorem deliver_answered {id : NodeId} {m : Message} {net' : Network} {ack : Acknowledgment}
    (answered : net.deliver (.node id) m = (net', .ok ack)) : ∃ x m' next,
      net.node? id = some x ∧ Message.format.decode (Message.format.encode m) = .ok m' ∧
      x.handle m' net.now = .ok (next, ack) ∧ net' = net.counted.setNode next := by
  cases read : Message.format.decode (Message.format.encode m) with
  | error fault => nomatch (deliver_unread read).symm.trans answered
  | ok m' =>
      cases here : net.node? id with
      | none =>
          obtain ⟨e, unmoved⟩ := deliver_unknown read here
          nomatch unmoved.symm.trans answered
      | some x =>
          rw [deliver_node read here] at answered
          cases handled : x.handle m' net.now with
          | error e =>
              rw [handled] at answered
              nomatch answered
          | ok result =>
              rw [handled] at answered
              obtain ⟨rfl, same⟩ := Prod.mk.inj answered
              obtain rfl := Except.ok.inj same
              exact ⟨x, m', result.1, rfl, rfl, handled, rfl⟩

/-- All that a delivery can do: nothing but to be counted, or a node handles what it reads. -/
theorem deliver_cases (net : Network) (r : Responder) (m : Message) :
    ((net.deliver r m).1 = net ∨ (net.deliver r m).1 = net.counted) ∨
    ∃ q x m' next ack, r = .node q ∧ net.node? q = some x ∧
      Message.format.decode (Message.format.encode m) = .ok m' ∧
      x.handle m' net.now = .ok (next, ack) ∧
      net.deliver r m = (net.counted.setNode next, .ok ack) := by
  cases r with
  | fixed ack =>
      obtain ⟨answer, same⟩ := deliver_fixed (r := .fixed ack) nofun m
      exact .inl (same net).1
  | refusing reason =>
      obtain ⟨answer, same⟩ := deliver_fixed (r := .refusing reason) nofun m
      exact .inl (same net).1
  | node q =>
      cases read : Message.format.decode (Message.format.encode m) with
      | error fault => exact .inl (.inl (by rw [deliver_unread read]))
      | ok m' =>
          cases here : net.node? q with
          | none =>
              obtain ⟨e, unmoved⟩ := deliver_unknown read here
              exact .inl (.inr (by rw [unmoved]))
          | some x =>
              cases handled : x.handle m' net.now with
              | error e => exact .inl (.inr (by rw [deliver_node read here, handled]))
              | ok result =>
                  refine .inr ⟨q, x, m', result.1, result.2, rfl, here, rfl, handled, ?_⟩
                  rw [deliver_node read here, handled]

/-- What has arrived is booked as it was answered. -/
theorem land_arrived {f : Flight} {r : Responder} {mid : Network} {n : Node}
    {answer : Except TransportError Acknowledgment} (arrives : f.fate = .arrives r)
    (delivered : net.deliver r f.message = (mid, answer)) (here : mid.node? f.initiator = some n) :
    net.land f = (mid.setNode (n.conclude f.purpose f.peer mid.now (answer.mapError .transport)).1,
      (n.conclude f.purpose f.peer mid.now (answer.mapError .transport)).2) := by
  unfold land
  simp only [arrives, delivered, here]

/-- A message is sent off to the responder at an address that is up and fast enough. -/
theorem depart_of_endpoint {initiator peer : NodeId} {address : String} {purpose : Purpose}
    {m : Message} {timeout time : Nat} {e : Endpoint} (up : net.endpoint? address = some e)
    (fast : e.delay ≤ timeout) : net.depart initiator peer address purpose m timeout time =
      ⟨initiator, peer, address, purpose, m, timeout, .arrives e.responder, time,
        time + e.delay⟩ := by
  unfold depart
  simp only [up, if_pos fast]

end Steps

/-- A node that knows one other. -/
def acquaintance (id peer address : String) : Node :=
  { Node.empty id with
    peers := ⟨id, .insert .empty peer ((Roster.newPeer ⟨peer, address, [], none⟩ 0).refresh 0)⟩ }

end Network

end ThreatGossip

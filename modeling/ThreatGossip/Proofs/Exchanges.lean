import ThreatGossip.Gossip
import ThreatGossip.Proofs.Inbound
/-!
What an exchange over the network did, once it has succeeded. The delta was built, it arrived at a
responder, an acknowledgment came back, and the initiator booked it.
-/
namespace ThreatGossip.Network

variable {net net' : Network}

/-- A node that was handed a message took it in, if the message came through as it was. -/
theorem deliver_node_spec {id : NodeId} {m : Message} {ack : Acknowledgment}
    (faithful : Message.format.decode (Message.format.encode m) = .ok m)
    (delivered : net.deliver (.node id) m = (net', .ok ack)) : ∃ n next answer,
      net.node? id = some n ∧ n.handle m net.now = .ok (next, answer) ∧
      Acknowledgment.format.decode (Acknowledgment.format.encode answer) = .ok ack ∧
      net'.nodes = net.nodes.insert next.id next ∧ net'.now = net.now := by
  have counted : ({ net with delivered := net.delivered + 1 } : Network).node? id = net.node? id :=
    rfl
  unfold deliver at delivered
  rw [faithful] at delivered
  dsimp only at delivered
  rw [counted] at delivered
  cases here : net.node? id with
  | none =>
      rw [here] at delivered
      cases delivered
  | some n =>
      rw [here] at delivered
      dsimp only at delivered
      cases handled : n.handle m net.now with
      | error e =>
          rw [handled] at delivered
          cases delivered
      | ok result =>
          obtain ⟨next, answer⟩ := result
          rw [handled] at delivered
          dsimp only at delivered
          cases read : Acknowledgment.format.decode (Acknowledgment.format.encode answer) with
          | error e =>
              rw [read] at delivered
              cases delivered
          | ok ack' =>
              rw [read] at delivered
              cases delivered
              exact ⟨n, next, answer, rfl, handled, read, rfl, rfl⟩

theorem conclude_push_spec {n next : Node} {peer : NodeId} {now : Millis}
    {outcome : Except ExchangeError Acknowledgment}
    (concluded : n.conclude .push peer now outcome = (next, .ok ())) :
    ∃ ack, outcome = .ok ack ∧ next = n.recordSuccess peer ack.version now := by
  unfold Node.conclude at concluded
  split at concluded
  next => cases concluded
  next => cases concluded
  next ack =>
    cases concluded
    exact ⟨ack, rfl, rfl⟩

/-- What has landed well arrived, was acknowledged, and is booked. -/
theorem land_push_spec {f : Flight} (push : f.purpose = .push)
    (success : net.land f = (net', .ok ())) : ∃ r mid ack, f.fate = .arrives r ∧
      net.deliver r f.message = (mid, .ok ack) ∧
      net' = mid.adjustNode f.initiator (·.recordSuccess f.peer ack.version mid.now) := by
  unfold land at success
  rw [push] at success
  split at success
  next mid outcome sent =>
    have acknowledged : ∃ ack, outcome = .ok ack ∧
        net' = mid.adjustNode f.initiator (·.recordSuccess f.peer ack.version mid.now) := by
      unfold adjustNode
      cases initiator : mid.node? f.initiator with
      | none =>
          rw [initiator] at success
          cases outcome with
          | error e => cases success
          | ok ack =>
              cases success
              exact ⟨ack, rfl, rfl⟩
      | some n =>
          rw [initiator] at success
          obtain ⟨rfl, result⟩ := Prod.mk.inj success
          obtain ⟨ack, rfl, booked⟩ := conclude_push_spec (Prod.ext rfl result)
          exact ⟨ack, rfl, congrArg mid.setNode booked⟩
    obtain ⟨ack, rfl, booked⟩ := acknowledged
    cases fate : f.fate with
    | unreachable =>
        rw [fate] at sent
        cases sent
    | expires =>
        rw [fate] at sent
        cases sent
    | arrives r =>
        rw [fate] at sent
        dsimp only at sent
        cases delivered : net.deliver r f.message with
        | mk after answer =>
            rw [delivered] at sent
            cases answer with
            | error e => cases sent
            | ok given =>
                cases sent
                exact ⟨r, after, _, rfl, delivered, booked⟩

theorem depart_arrives {initiator peer : NodeId} {address : String} {purpose : Purpose}
    {m : Message} {timeout time : Nat} {r : Responder}
    (arrives : (net.depart initiator peer address purpose m timeout time).fate = .arrives r) :
    ∃ e, net.endpoint? address = some e ∧ e.responder = r := by
  unfold depart at arrives
  cases found : net.endpoint? address with
  | none =>
      rw [found] at arrives
      cases arrives
  | some e =>
      rw [found] at arrives
      dsimp only at arrives
      split at arrives
      next => exact ⟨e, rfl, Fate.arrives.inj arrives⟩
      next => cases arrives

/-- A call of `syncWith` that succeeds has delivered its delta and booked the acknowledgment. -/
theorem syncWith_spec {n : Node} {peer : Peer} {policy : Policy}
    (success : net.syncWith n peer policy = (net', .ok ())) : ∃ m e mid ack,
      n.deltaMessage peer.id net.now = .ok m ∧ net.endpoint? peer.address = some e ∧
      net.deliver e.responder m = (mid, .ok ack) ∧
      net' = mid.adjustNode n.id (·.recordSuccess peer.id ack.version mid.now) := by
  unfold syncWith at success
  cases built : n.deltaMessage peer.id net.now with
  | error e =>
      rw [built] at success
      cases success
  | ok m =>
      rw [built] at success
      obtain ⟨r, mid, ack, arrives, delivered, booked⟩ := land_push_spec rfl success
      obtain ⟨e, found, rfl⟩ := depart_arrives arrives
      exact ⟨m, e, mid, ack, rfl, found, delivered, booked⟩

/-- Every address is a node's. -/
def Honest (net : Network) : Prop :=
  ∀ address e, net.endpoint? address = some e → ∃ id, e.responder = .node id

/-- The nodes after a call of `syncWith` that succeeded: another node has handled the delta, and the
caller has booked the acknowledgment that was read. -/
theorem syncWith_nodes {n : Node} {peer : Peer} {policy : Policy} {m : Message}
    (honest : net.Honest) (named : ∀ id x, net.node? id = some x → x.id = id)
    (here : net.node? n.id = some n) (built : n.deltaMessage peer.id net.now = .ok m)
    (faithful : Message.format.decode (Message.format.encode m) = .ok m)
    (sender : m.sender = n.id) (success : net.syncWith n peer policy = (net', .ok ())) :
    ∃ other next answer ack, net.node? other.id = some other ∧
      other.handle m net.now = .ok (next, answer) ∧
      Acknowledgment.format.decode (Acknowledgment.format.encode answer) = .ok ack ∧
      net'.nodes = (net.nodes.insert next.id next).insert n.id
        (n.recordSuccess peer.id ack.version net.now) := by
  obtain ⟨m', e, mid, ack, built', found, delivered, rfl⟩ := syncWith_spec success
  obtain rfl := Except.ok.inj (built.symm.trans built')
  obtain ⟨id, responder⟩ := honest _ e found
  rw [responder] at delivered
  obtain ⟨other, next, answer, known, handled, read, nodes, now⟩ :=
    deliver_node_spec faithful delivered
  obtain rfl := named id other known
  refine ⟨other, next, answer, ack, known, handled, read, ?_⟩
  have foreign : n.id ≠ next.id := by
    rw [Node.id_of_handle handled, ← sender]
    exact (Node.handle_cases handled).1.foreign
  have kept : mid.node? n.id = some n := by
    unfold node?
    rw [nodes, SortedMap.get?_insert, if_neg foreign]
    exact here
  unfold adjustNode
  rw [kept, now]
  change mid.nodes.insert _ _ = _
  rw [nodes]
  rfl

end ThreatGossip.Network

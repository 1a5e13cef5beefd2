import ThreatGossip.Proofs.Quarantine
/-!
What an exchange with one peer reads and writes. Of a network it sees the time, the endpoint at the
peer's address, the peer's own node, and at its initiator the content and the peer's entry; what is
sent to others and what is booked for others stays out of its sight, and from networks that look
alike to it, it comes to the same.
-/
namespace ThreatGossip

/-- What an outcome has the initiator book: nothing, a failure, or a success with a version. -/
def Exchange.verdict : Except ExchangeError Acknowledgment → Option (Option Clock)
  | .error .cancelled => none
  | .error _ => some none
  | .ok ack => some (some ack.version)

/-- An entry after an outcome has been booked. -/
def Peer.book (now : Millis) (p : Peer) : Option (Option Clock) → Peer
  | none => p
  | some none => p.fail now
  | some (some acked) => p.succeed acked now

namespace Node

variable {n : Node} {peer id : NodeId} {now : Millis}
  {outcome : Except ExchangeError Acknowledgment}

theorem snapshot_conclude_push :
    (n.conclude .push peer now outcome).1.snapshot = n.snapshot := by
  cases outcome with
  | error e => cases e <;> rfl
  | ok ack => rfl

/-- Booking a push acts on the entry of its peer alone, and asks only for the verdict. -/
theorem get?_conclude_push (id : NodeId) :
    (n.conclude .push peer now outcome).1.peers.get? id =
      if id = peer then (n.peers.get? id).map (·.book now (Exchange.verdict outcome))
      else n.peers.get? id := by
  have kept : n.peers.get? id = if id = peer then (n.peers.get? id).map (·.book now none)
      else n.peers.get? id := by
    split
    · cases n.peers.get? id <;> rfl
    · rfl
  have adjusted (f : Peer → Peer) : (n.peers.adjust peer f).get? id =
      if id = peer then (n.peers.get? id).map f else n.peers.get? id := by
    rw [Roster.get?_adjust]
    split
    next same => rw [same]
    next => rfl
  cases outcome with
  | ok ack => exact adjusted _
  | error e =>
      cases e with
      | cancelled => exact kept
      | transport | timedOut | refused | noReply | wrongReply => exact adjusted _

/-- A node that a message is addressed to by name does not take it for another's. -/
theorem handle_misaddressed {m : Message} (named : m.recipient ≠ "") (other : m.recipient ≠ n.id) :
    ∃ e, n.handle m now = .error e := by
  cases handled : n.handle m now with
  | error e => exact ⟨e, rfl⟩
  | ok result =>
      rcases (handle_cases handled).1.addressed with blank | own
      · exact absurd blank named
      · exact absurd own other

end Node

/-- The flight of a push to a peer. -/
structure Flight.Pushes (me q : NodeId) (f : Flight) : Prop where
  initiator : f.initiator = me
  addressee : f.peer = q
  purpose : f.purpose = .push
  sender : f.message.sender = me
  recipient : f.message.recipient = q

namespace Network

variable {net net₁ net₂ : Network} {me peer : NodeId} {address : String}

/-- Every node stands under its own name. -/
def Named (net : Network) : Prop := ∀ id n, net.node? id = some n → n.id = id

/-- What of a network bears on the exchange that a node has with one peer: the time, the endpoint at
the peer's address, the peer's own node, and of the node that begins the exchange its content and
the peer's entry. -/
structure View where
  now : Millis
  endpoint : Option Endpoint
  peer : Option Node
  initiator : Option (Snapshot × Option Peer)

def view (net : Network) (me peer : NodeId) (address : String) : View where
  now := net.now
  endpoint := net.endpoint? address
  peer := net.node? peer
  initiator := (net.node? me).map fun n => (n.snapshot, n.peers.get? peer)

section Frames

theorem view_counted : net.counted.view me peer address = net.view me peer address := rfl

/-- A change of a third node is out of view. -/
theorem view_setNode_other {n : Node} (apart : n.id ≠ peer) (third : n.id ≠ me) :
    (net.setNode n).view me peer address = net.view me peer address := by
  unfold view
  rw [node?_setNode, node?_setNode, if_neg (Ne.symm apart), if_neg (Ne.symm third)]
  rfl

/-- What the initiator changes comes into view with its content and the peer's entry. -/
theorem view_setNode_me {n : Node} (own : n.id = me) (apart : peer ≠ me) :
    (net.setNode n).view me peer address =
      { net.view me peer address with initiator := some (n.snapshot, n.peers.get? peer) } := by
  unfold view
  rw [node?_setNode, node?_setNode, if_pos own.symm, if_neg (own ▸ apart)]
  rfl

/-- What the peer's node changes comes into view as a whole. -/
theorem view_setNode_peer {n : Node} (own : n.id = peer) (apart : peer ≠ me) :
    (net.setNode n).view me peer address =
      { net.view me peer address with peer := some n } := by
  unfold view
  rw [node?_setNode, node?_setNode, if_pos own.symm, if_neg (own ▸ apart.symm)]
  rfl

theorem Named.setNode (h : net.Named) (n : Node) : (net.setNode n).Named := by
  intro id x found
  rw [node?_setNode] at found
  split at found
  next same =>
    obtain rfl := Option.some.inj found
    exact same.symm
  next => exact h id x found

theorem Named.deliver (h : net.Named) (r : Responder) (m : Message) :
    (net.deliver r m).1.Named := by
  rcases net.deliver_cases r m with (same | same) | ⟨q, x, m', next, ack, -, -, -, -, done⟩
  · rw [same]
    exact h
  · rw [same]
    exact h
  · have counted : net.counted.Named := h
    rw [done]
    exact counted.setNode next

theorem Named.arrival (h : net.Named) (f : Flight) : (net.arrival f).1.Named := by
  unfold Network.arrival
  cases f.fate with
  | unreachable | expires => exact h
  | arrives r =>
      dsimp only
      exact h.deliver r f.message

theorem Named.adjustNode (h : net.Named) (id : NodeId) (f : Node → Node) :
    (net.adjustNode id f).Named := by
  unfold Network.adjustNode
  cases net.node? id with
  | none => exact h
  | some n => exact h.setNode _

end Frames

section Deliveries

variable {q : NodeId} {m : Message} {r : Responder}

/-- A message to another peer is handled, if at all, by that peer. -/
theorem view_deliver_other (sender : m.sender = me) (recipient : m.recipient = q)
    (addressed : q ≠ "") (other : q ≠ peer) :
    (net.deliver r m).1.view me peer address = net.view me peer address := by
  rcases net.deliver_cases r m with
    (same | same) | ⟨k, x, m', next, ack, -, here, read, handled, done⟩
  · rw [same]
  · rw [same, view_counted]
  · obtain ⟨accepted, -⟩ := Node.handle_cases handled
    have envelope := Message.envelope_of_decode read
    have from_me : m'.sender = me := (congrArg Message.Envelope.sender envelope).trans sender
    have to_q : m'.recipient = q := (congrArg Message.Envelope.recipient envelope).trans recipient
    have name : x.id = q := by
      rcases accepted.addressed with blank | own
      · exact absurd (to_q.symm.trans blank) addressed
      · exact own.symm.trans to_q
    have same := Node.id_of_handle handled
    rw [done, view_setNode_other, view_counted]
    · rw [same, name]
      exact other
    · rw [same, ← from_me]
      exact accepted.foreign.symm

/-- A message is not handed over to a node that it does not name. -/
theorem deliver_misaddressed {k : NodeId} (named : net.Named) (recipient : m.recipient = peer)
    (addressed : peer ≠ "") (other : k ≠ peer) :
    ((net.deliver (.node k) m).1 = net ∨ (net.deliver (.node k) m).1 = net.counted) ∧
      ∃ e, (net.deliver (.node k) m).2 = .error e := by
  cases read : Message.format.decode (Message.format.encode m) with
  | error fault =>
      rw [deliver_unread read]
      exact ⟨.inl rfl, _, rfl⟩
  | ok m' =>
      have envelope := Message.envelope_of_decode read
      have to_peer : m'.recipient = peer :=
        (congrArg Message.Envelope.recipient envelope).trans recipient
      cases here : net.node? k with
      | none =>
          obtain ⟨e, unmoved⟩ := deliver_unknown read here
          rw [unmoved]
          exact ⟨.inr rfl, e, rfl⟩
      | some x =>
          have foreign : m'.recipient ≠ x.id := by
            rw [to_peer, named k x here]
            exact Ne.symm other
          obtain ⟨e, refused⟩ := x.handle_misaddressed (to_peer ▸ addressed) foreign
          rw [deliver_node read here, refused]
          exact ⟨.inr rfl, _, rfl⟩

/-- A message to the peer fares alike in networks that look alike to it. -/
theorem deliver_congr (named₁ : net₁.Named) (named₂ : net₂.Named)
    (same : net₁.view me peer address = net₂.view me peer address) (apart : peer ≠ me)
    (recipient : m.recipient = peer) (addressed : peer ≠ "") :
    (net₁.deliver r m).1.view me peer address = (net₂.deliver r m).1.view me peer address ∧
      Exchange.verdict ((net₁.deliver r m).2.mapError .transport) =
        Exchange.verdict ((net₂.deliver r m).2.mapError .transport) := by
  have unseen {net : Network} {net' : Network} (h : net' = net ∨ net' = net.counted) :
      net'.view me peer address = net.view me peer address := by
    rcases h with rfl | rfl <;> rfl
  by_cases fixed : ∀ k, r ≠ .node k
  · obtain ⟨answer, alike⟩ := deliver_fixed fixed m
    rw [unseen (alike net₁).1, unseen (alike net₂).1, (alike net₁).2, (alike net₂).2]
    exact ⟨same, rfl⟩
  · obtain ⟨k, rfl⟩ := not_forall_not.mp fixed
    by_cases own : k = peer
    · subst own
      have here : net₁.node? k = net₂.node? k := congrArg View.peer same
      have now : net₁.now = net₂.now := congrArg View.now same
      cases read : Message.format.decode (Message.format.encode m) with
      | error fault =>
          rw [deliver_unread read, deliver_unread read]
          exact ⟨same, rfl⟩
      | ok m' =>
          cases here₁ : net₁.node? k with
          | none =>
              obtain ⟨e₁, unmoved₁⟩ := deliver_unknown read here₁
              obtain ⟨e₂, unmoved₂⟩ := deliver_unknown read (here ▸ here₁)
              rw [unmoved₁, unmoved₂]
              exact ⟨same, rfl⟩
          | some x =>
              rw [deliver_node read here₁, deliver_node read (here ▸ here₁), ← now]
              cases handled : x.handle m' net₁.now with
              | error e => exact ⟨same, rfl⟩
              | ok result =>
                  have name : result.1.id = k :=
                    (Node.id_of_handle handled).trans (named₁ k x here₁)
                  refine ⟨?_, rfl⟩
                  dsimp only
                  rw [view_setNode_peer name apart, view_setNode_peer name apart, view_counted,
                    view_counted, same]
    · obtain ⟨unmoved₁, e₁, refused₁⟩ := deliver_misaddressed named₁ recipient addressed own
      obtain ⟨unmoved₂, e₂, refused₂⟩ := deliver_misaddressed named₂ recipient addressed own
      rw [unseen unmoved₁, unseen unmoved₂, refused₁, refused₂]
      exact ⟨same, rfl⟩

end Deliveries

section Flights

variable {f : Flight} {q : NodeId} {outcome : Except ExchangeError Acknowledgment}

theorem view_arrival_other (pushes : f.Pushes me q) (addressed : q ≠ "") (other : q ≠ peer) :
    (net.arrival f).1.view me peer address = net.view me peer address := by
  unfold arrival
  cases f.fate with
  | unreachable | expires => rfl
  | arrives r =>
      dsimp only
      exact view_deliver_other pushes.sender pushes.recipient addressed other

theorem arrival_congr (named₁ : net₁.Named) (named₂ : net₂.Named)
    (same : net₁.view me peer address = net₂.view me peer address) (apart : peer ≠ me)
    (pushes : f.Pushes me peer) (addressed : peer ≠ "") :
    (net₁.arrival f).1.view me peer address = (net₂.arrival f).1.view me peer address ∧
      Exchange.verdict (net₁.arrival f).2 = Exchange.verdict (net₂.arrival f).2 := by
  unfold arrival
  cases f.fate with
  | unreachable | expires => exact ⟨same, rfl⟩
  | arrives r =>
      dsimp only
      exact deliver_congr named₁ named₂ same apart pushes.recipient addressed

theorem now_arrival (net : Network) (f : Flight) : (net.arrival f).1.now = net.now := by
  unfold arrival
  cases f.fate with
  | unreachable | expires => rfl
  | arrives r =>
      dsimp only
      rcases net.deliver_cases r f.message with (same | same) | ⟨_, _, _, next, _, -, -, -, -, done⟩
      · rw [same]
      · rw [same]
        rfl
      · rw [done]
        rfl

/-- No delivery changes the node that the message is from. -/
theorem node?_arrival (sender : f.message.sender = me) :
    (net.arrival f).1.node? me = net.node? me := by
  unfold arrival
  cases f.fate with
  | unreachable | expires => rfl
  | arrives r =>
      dsimp only
      rcases net.deliver_cases r f.message with
        (same | same) | ⟨k, x, m', next, ack, -, here, read, handled, done⟩
      · rw [same]
      · rw [same]
        rfl
      · have from_me : m'.sender = me :=
          (congrArg Message.Envelope.sender (Message.envelope_of_decode read)).trans sender
        have other : me ≠ next.id := by
          rw [← from_me, Node.id_of_handle handled]
          exact (Node.handle_cases handled).1.foreign
        rw [done, node?_setNode, if_neg other]
        rfl

/-- What a node hears of its own message, it books as it was. -/
theorem land_own {n : Node} (own : f.initiator = n.id) (sender : f.message.sender = n.id)
    (here : net.node? n.id = some n) :
    net.land f = ((net.arrival f).1.setNode
        (n.conclude f.purpose f.peer net.now (net.arrival f).2).1,
      (n.conclude f.purpose f.peer net.now (net.arrival f).2).2) := by
  have now := net.now_arrival f
  have kept := (node?_arrival sender).trans here
  rw [← own] at kept
  unfold arrival at now kept ⊢
  cases fate : f.fate with
  | unreachable | expires =>
      simp only [fate] at kept
      unfold land
      simp only [fate, kept]
  | arrives r =>
      simp only [fate] at now kept
      rcases delivered : net.deliver r f.message with ⟨mid, answer⟩
      rw [delivered] at now kept
      have mid_now : mid.now = net.now := now
      rw [land_arrived fate delivered kept, mid_now]
      dsimp only
      rw [delivered]

/-- The initiator books what an exchange comes to. -/
def book (net : Network) (f : Flight) (outcome : Except ExchangeError Acknowledgment) : Network :=
  net.adjustNode f.initiator fun n => (n.conclude f.purpose f.peer net.now outcome).1

theorem Named.book (h : net.Named) (f : Flight)
    (outcome : Except ExchangeError Acknowledgment) : (net.book f outcome).Named := by
  unfold Network.book
  exact h.adjustNode f.initiator _

theorem node?_book {n : Node} (named : n.id = me) (pushes : f.Pushes me q)
    (here : net.node? me = some n) :
    (net.book f outcome).node? me = some (n.conclude .push q net.now outcome).1 := by
  have own : (n.conclude .push q net.now outcome).1.id = me :=
    (n.id_of_conclude _ _ _ _).trans named
  unfold book adjustNode
  rw [pushes.initiator, pushes.purpose, pushes.addressee, here]
  exact (node?_setNode ..).trans (if_pos own.symm)

/-- What is in view once an exchange with a peer has been booked. -/
theorem view_book (named : net.Named) (pushes : f.Pushes me q) (apart : peer ≠ me) :
    (net.book f outcome).view me peer address =
      { net.view me peer address with
        initiator := (net.node? me).map fun n =>
          (n.snapshot, if peer = q then
            (n.peers.get? peer).map (·.book net.now (Exchange.verdict outcome))
          else n.peers.get? peer) } := by
  unfold book adjustNode
  rw [pushes.initiator, pushes.purpose, pushes.addressee]
  cases here : net.node? me with
  | none =>
      change net.view me peer address = _
      unfold view
      rw [here]
      rfl
  | some n =>
      have own : (n.conclude .push q net.now outcome).1.id = me :=
        (n.id_of_conclude _ _ _ _).trans (named me n here)
      refine (view_setNode_me own apart).trans ?_
      rw [Node.snapshot_conclude_push, Node.get?_conclude_push]
      rfl

theorem view_book_other (named : net.Named) (pushes : f.Pushes me q) (apart : peer ≠ me)
    (other : q ≠ peer) : (net.book f outcome).view me peer address = net.view me peer address := by
  rw [view_book named pushes apart]
  simp only [if_neg (Ne.symm other)]
  rfl

theorem book_congr (named₁ : net₁.Named) (named₂ : net₂.Named)
    (same : net₁.view me peer address = net₂.view me peer address) (apart : peer ≠ me)
    (pushes : f.Pushes me peer) {outcome₁ outcome₂ : Except ExchangeError Acknowledgment}
    (verdict : Exchange.verdict outcome₁ = Exchange.verdict outcome₂) :
    (net₁.book f outcome₁).view me peer address = (net₂.book f outcome₂).view me peer address := by
  have booked (net : Network) (named : net.Named)
      (outcome : Except ExchangeError Acknowledgment) :
      (net.book f outcome).view me peer address =
        { net.view me peer address with
          initiator := (net.view me peer address).initiator.map fun (s, e) =>
            (s, e.map (·.book (net.view me peer address).now (Exchange.verdict outcome))) } := by
    rw [view_book named pushes apart]
    simp only [if_true, view, Option.map_map]
    rfl
  rw [booked net₁ named₁, booked net₂ named₂, same, verdict]

theorem land_eq_book (net : Network) (f : Flight) :
    (net.land f).1 = (net.arrival f).1.book f (net.arrival f).2 := net.land_eq f

theorem land_congr (named₁ : net₁.Named) (named₂ : net₂.Named)
    (same : net₁.view me peer address = net₂.view me peer address) (apart : peer ≠ me)
    (pushes : f.Pushes me peer) (addressed : peer ≠ "") :
    (net₁.land f).1.view me peer address = (net₂.land f).1.view me peer address := by
  obtain ⟨views, verdicts⟩ := arrival_congr named₁ named₂ same apart pushes addressed
  rw [land_eq_book, land_eq_book]
  exact book_congr (named₁.arrival f) (named₂.arrival f) views apart pushes verdicts

end Flights

end Network

end ThreatGossip

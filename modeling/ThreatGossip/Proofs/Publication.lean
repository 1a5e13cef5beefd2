import ThreatGossip.Proofs.Replays
import ThreatGossip.Proofs.Transports
/-!
Documents that a node accepts and passes on. A document is accepted when it nests at most 127 deep
and has an id. It reaches a new peer, by a delta that is pushed or by a full state that is pulled,
when it nests at most 123 deep; one that nests deeper stops both, and the peer takes in nothing.
-/
namespace ThreatGossip

open Json (Document)

namespace Http

variable {n : Node} {s : Surroundings} {r : Request}

theorem depth_le_of_readBody {d : Document} {maxBody : Nat}
    (read : readBody .document r maxBody = .ok d) : d.tree.depth ≤ Json.maxDepth := by
  unfold readBody at read
  split at read
  · contradiction
  split at read
  · contradiction
  split at read
  next decoded =>
    obtain rfl := Except.ok.inj read
    unfold Json.Format.decodeFront at decoded
    simp only [Json.Format.document] at decoded
    split at decoded
    next legible =>
      obtain rfl := Except.ok.inj decoded
      exact Nat.le_trans (Json.Tree.depth_normalize_le _) (Json.Tree.depth_le_of_legible legible)
    next => contradiction
  next => contradiction
  next => contradiction

/-- A document that was accepted was read from the body, has an id, and is stored under it. -/
theorem created_spec {t : Target} {o : Outcome}
    (posted : serve? s n r t .threats "POST" = some (some o)) (created : o.response.status = 201) :
    ∃ d id, readBody .document r s.maxBody = .ok d ∧ d.string? "id" = some id ∧
      n.putThreat? id d s.now = some o.node := by
  have posted := Option.some.inj posted
  cases read : readBody .document r s.maxBody with
  | error response =>
      rw [read] at posted
      obtain rfl := Option.some.inj posted
      have refused : 201 / 100 = 4 := created ▸ status_of_readBody read
      nomatch refused
  | ok d =>
      rw [read] at posted
      simp only [putThreat] at posted
      split at posted
      next id named =>
        obtain ⟨next, stored, rfl⟩ := Option.map_eq_some_iff.mp posted
        exact ⟨d, id, rfl, (Option.filter_eq_some_iff.mp named).1, stored⟩
      next =>
        obtain rfl := Option.some.inj posted
        exact absurd created (show 400 ≠ 201 by decide)

/-- A JSON body is read as the document that was written there. -/
theorem readBody_encode {d : Document} (portable : d.Portable) (fits : d.tree.depth ≤ Json.maxDepth)
    (target : String) : readBody .document
      ⟨"POST", target, some "application/json", Json.Format.document.encode d⟩
      (Json.Format.document.encode d).utf8ByteSize = .ok d := by
  have read : Json.Format.document.decodeFront (Json.Format.document.encode d) = .ok d := by
    rw [Json.Format.decodeFront, Json.Format.encode,
      Json.Tree.ofChars_text (Json.Format.writesPlain_document d)]
    exact (Json.Format.roundTrips_document.returns Json.maxDepth d d portable).mpr ⟨rfl, fits⟩
  have type : isJsonType "application/json" = true := by decide
  unfold readBody
  simp only [Option.any_some, type, read, Nat.lt_irrefl]
  rfl

end Http

theorem Json.Document.isNull_of_string? {d : Document} {name value : String}
    (member : d.string? name = some value) : d.isNull = false := by
  unfold Document.string? at member
  unfold Document.isNull
  cases tree : d.tree <;> simp [tree] at member ⊢

namespace Node

variable {n n' : Node}

/-- A stored document is there to be read, under a clock that counts one more event of the node. -/
theorem putThreat?_spec {key : String} {d : Document} {now : Millis} (live : d.isNull = false)
    (put : n.putThreat? key d now = some n') : n' = { n with threats := n'.threats } ∧
      n.version.tick? n.threats.owner = some n'.version ∧
      ∃ r, n'.threats.register? key = some r ∧ r.value = some d ∧ r.clock = n'.version := by
  obtain ⟨m, stored, rfl⟩ := Option.map_eq_some_iff.mp put
  obtain ⟨tick, -, registers⟩ := RegisterMap.put?_spec stored
  refine ⟨rfl, tick, _, (registers key).trans (if_pos rfl), ?_, rfl⟩
  rw [live]
  rfl

end Node

section Contents

variable {P : Document → Prop}

theorem Registers.EachDocument.of_get? {m : ThreatMap} (h : m.registers.EachDocument P)
    {key : String} {d : Document} (found : m.get? key = some d) : P d := by
  obtain ⟨r, stored, value⟩ := Option.bind_eq_some_iff.mp found
  exact h (key, r) (SortedMap.get?_eq_some_iff.mp stored) d value

/-- What a new node takes in is what it is brought. -/
theorem Node.register?_of_handle {n next : Node} {m : Message} {now : Millis}
    {ack : Acknowledgment} {s : Snapshot} {key : String} {r : Register (Option Document)}
    (handled : n.handle m now = .ok (next, ack)) (brings : m.brings = some s)
    (missing : n.threats.register? key = none) (brought : s.threats.register? key = some r) :
    next.threats.register? key = some r := by
  have content := congrArg Snapshot.threats (snapshot_of_handle handled).1
  rw [brings] at content
  have merged : next.threats = n.threats.merge s.threats := content
  have brought : s.threats.registers.get? key = some r := brought
  rw [merged]
  refine (RegisterMap.register?_absorb n.threats s.threats.registers key).trans ?_
  rw [missing, brought]

/-- A response of the peer that was asked is handled like any other message. -/
theorem Node.takeReply_response {n : Node} {m : Message} {peer : NodeId}
    (response : m.payload.kind = .response) (sender : m.sender = peer) (now : Millis) :
    n.takeReply peer (some m) now = match n.handle m now with
      | .ok (next, _) => .ok next
      | .error e => .error (.refused e) := by
  have expected : ¬(m.payload.kind ≠ .response ∨ m.sender ≠ peer) := by
    rw [response, sender]
    simp
  exact if_neg expected

theorem RegisterMap.get?_of_register? {α : Type} {m : RegisterMap α} {key : String}
    {r : Register (Option α)} (found : m.register? key = some r) : m.get? key = r.value := by
  rw [RegisterMap.get?, found]
  rfl

end Contents

namespace Network

/-- A node has a peer on record that is new and knows nobody else, and they reach each other. -/
structure Acquainted (net : Network) (n b : Node) (p : Peer) (timeout : Nat) : Prop where
  here : net.node? n.id = some n
  there : net.node? b.id = some b
  known : n.peers.get? b.id = some p
  own : p.id = b.id
  named : b.id ≠ ""
  new : ∃ i t, (Node.empty b.id).addPeer i t = .ok b ∧ i.id = n.id ∧
    net.Reaches i.address n.id timeout
  reached : net.Reaches p.address b.id timeout

section Acquaintances

variable {net : Network} {n b : Node} {p : Peer} {policy : Policy}

/-- What a new node has on record of the one that it knows, and what it holds. -/
theorem Acquainted.record {timeout : Nat} (h : Acquainted net n b p timeout) :
    n.id ≠ b.id ∧ n.id ≠ "" ∧ b.threats = .empty b.id ∧
      ∃ q, b.peers.get? n.id = some q ∧ net.Reaches q.address n.id timeout := by
  obtain ⟨i, t, added, same, reaches⟩ := h.new
  unfold Node.addPeer Roster.register at added
  split at added
  · contradiction
  next foreign =>
  split at added
  · contradiction
  next titled =>
  split at added
  · contradiction
  next =>
  have added := Except.ok.inj added
  have threats : b.threats = .empty b.id := congrArg Node.threats added.symm
  have record : b.peers.get? i.id = some ((Roster.newPeer i t).refresh t) := by
    rw [congrArg Node.peers added.symm]
    exact (SortedMap.get?_insert _ _ _ _).trans (if_pos rfl)
  rw [same] at foreign titled record
  exact ⟨foreign, titled, threats, _, record, reaches⟩

/-- A node that writes threats stays acquainted. -/
theorem Acquainted.write {timeout : Nat} (h : Acquainted net n b p timeout) (m : ThreatMap) :
    Acquainted (net.setNode { n with threats := m }) { n with threats := m } b p timeout where
  here := (node?_setNode _ _ _).trans (if_pos rfl)
  there := (node?_setNode _ _ _).trans ((if_neg (Ne.symm h.record.1)).trans h.there)
  known := h.known
  own := h.own
  named := h.named
  new := h.new
  reached := h.reached

/-- A new node accepts every readable message of the one that it knows. -/
theorem Acquainted.accepts {timeout : Nat} (h : Acquainted net n b p timeout) {m : Message}
    (sender : m.sender = n.id) (recipient : m.recipient = b.id)
    (readable : ∀ text, m.payload = .full text ∨ m.payload = .response text →
      ∃ s, Snapshot.format.decode text = .ok s) : b.Accepts m := by
  obtain ⟨foreign, named, -, q, known, -⟩ := h.record
  exact ⟨sender ▸ named, sender ▸ foreign,
    sender ▸ Roster.contains_iff.mpr ⟨q, known⟩, .inr recipient, readable⟩

/-- An exchange with a node that is reached lands there. -/
theorem exchange_of_reaches {address : String} {id peer : NodeId}
    (reaches : net.Reaches address id policy.timeout) (purpose : Purpose) {m : Message}
    {mid : Network} {answer : Except TransportError Acknowledgment}
    (delivered : net.deliver (.node id) m = (mid, answer)) (here : mid.node? n.id = some n) :
    net.exchange n peer address purpose m policy =
      (mid.setNode (n.conclude purpose peer mid.now (answer.mapError .transport)).1,
        (n.conclude purpose peer mid.now (answer.mapError .transport)).2) := by
  obtain ⟨e, up, responder, fast⟩ := reaches
  unfold exchange
  rw [depart_of_endpoint up fast, responder]
  exact land_arrived rfl delivered here

/-- The delta that the peer is sent. -/
def push (net : Network) (n : Node) (p : Peer) : Message :=
  n.messageTo p.id (.delta (n.threats.delta p.version net.now) (some n.rules) (some n.metrics))
    net.now

theorem syncWith_eq {peer : NodeId} (known : n.peers.get? peer = some p) (own : p.id = peer) :
    net.syncWith n p policy = net.exchange n peer p.address .push (net.push n p) policy := by
  have built : n.deltaMessage p.id net.now = .ok (net.push n p) := by
    unfold Node.deltaMessage Roster.version?
    rw [own, known]
    simp only [Option.map_some, push, own]
  unfold syncWith
  rw [built, own]

/-- A delta that its peer handles is booked as a success. -/
theorem syncWith_handled (here : net.node? n.id = some n) (there : net.node? b.id = some b)
    (known : n.peers.get? b.id = some p) (own : p.id = b.id) (apart : n.id ≠ b.id)
    (reached : net.Reaches p.address b.id policy.timeout)
    (read : Message.format.decode (Message.format.encode (net.push n p)) = .ok (net.push n p))
    {next : Node} {ack : Acknowledgment}
    (handled : b.handle (net.push n p) net.now = .ok (next, ack)) :
    net.syncWith n p policy =
      ((net.counted.setNode next).setNode (n.recordSuccess b.id ack.version net.now), .ok ()) := by
  have delivered := deliver_handled read there handled
  have here : (net.counted.setNode next).node? n.id = some n := by
    rw [node?_setNode, Node.id_of_handle handled, if_neg apart]
    exact here
  rw [syncWith_eq known own, exchange_of_reaches reached .push delivered here]
  rfl

/-- The delta of a node whose documents travel arrives, and is booked as a success. -/
theorem Acquainted.syncWith_arrives (h : Acquainted net n b p policy.timeout)
    (travels : n.snapshot.EachDocument Travels) : ∃ next ack,
      b.handle (net.push n p) net.now = .ok (next, ack) ∧
      net.syncWith n p policy =
        ((net.counted.setNode next).setNode (n.recordSuccess b.id ack.version net.now),
          .ok ()) := by
  have read := Message.decode_encode_of_travels (m := net.push n p)
    (Registers.EachDocument.delta travels p.version net.now)
  have accepts := h.accepts (m := net.push n p) rfl h.own fun _ brought => by
    rcases brought with full | response
    · nomatch full
    · nomatch response
  obtain ⟨next, ack, handled⟩ := Node.handle_eq_ok_iff.mpr (Node.accepts_iff.mp accepts)
  exact ⟨next, ack, handled,
    syncWith_handled h.here h.there h.known h.own h.record.1 h.reached read handled⟩

/-- A delta that cannot be read leaves the peer as it was, and is booked as a failure. -/
theorem Acquainted.syncWith_unread (h : Acquainted net n b p policy.timeout) {fault : Json.Fault}
    (unread : Message.format.decode (Message.format.encode (net.push n p)) = .error fault) :
    net.syncWith n p policy = (net.setNode (n.recordFailure b.id net.now),
      .error (.transport (.undecodable fault))) := by
  rw [syncWith_eq h.known h.own, exchange_of_reaches h.reached .push (deliver_unread unread) h.here]
  rfl

/-- A pull gets as far as the full state that answers it. -/
theorem Acquainted.pullFrom_eq (h : Acquainted net n b p policy.timeout) : ∃ heard ack,
    heard.id = n.id ∧ heard.snapshot = n.snapshot ∧
    ack.reply = some (heard.responseMessage b.id net.now) ∧
    net.pullFrom b n.id policy =
      ((net.counted.setNode heard).setNode (b.conclude .pull n.id net.now (.ok ack)).1,
        (b.conclude .pull n.id net.now (.ok ack)).2) := by
  obtain ⟨foreign, named, -, q, known, reaches⟩ := h.record
  have read := Message.decode_encode_of_travels (m := b.requestMessage n.id net.now) trivial
  have accepts : n.Accepts (b.requestMessage n.id net.now) :=
    ⟨h.named, Ne.symm foreign, Roster.contains_iff.mpr ⟨p, h.known⟩, .inr rfl, fun _ brought => by
      rcases brought with full | response
      · nomatch full
      · nomatch response⟩
  obtain ⟨heard, ack, handled⟩ := Node.handle_eq_ok_iff.mpr (Node.accepts_iff.mp accepts)
  obtain ⟨rfl, answer⟩ := Node.request_of_handle rfl handled
  have delivered := deliver_handled read h.here handled
  have back : (net.counted.setNode (n.touchPeer b.id net.now)).node? b.id = some b := by
    rw [node?_setNode]
    exact (if_neg (Ne.symm foreign)).trans h.there
  refine ⟨n.touchPeer b.id net.now, ack, rfl, rfl, by rw [answer]; rfl, ?_⟩
  unfold pullFrom
  simp only [known]
  rw [exchange_of_reaches reaches .pull delivered back]
  rfl

/-- A full state that can be read is merged, and the pull is booked as a success. -/
theorem Acquainted.pullFrom_arrives (h : Acquainted net n b p policy.timeout)
    (travels : n.snapshot.EachDocument Travels) : ∃ net' next ack m,
      m.brings = some n.snapshot ∧ b.handle m net.now = .ok (next, ack) ∧
      net.pullFrom b n.id policy = (net', .ok ()) ∧
      ∃ b', net'.node? b.id = some b' ∧ b'.threats = next.threats := by
  obtain ⟨heard, ack, same, content, reply, pulled⟩ := h.pullFrom_eq
  have readable : Snapshot.format.decode heard.fullState = .ok n.snapshot := by
    rw [Node.fullState, content]
    exact Snapshot.decode_encode_of_travels travels
  have accepts := h.accepts (m := heard.responseMessage b.id net.now) same rfl fun text state => by
    rcases state with full | response
    · cases full
    · exact ⟨_, Payload.response.inj response ▸ readable⟩
  obtain ⟨next, ack', handled⟩ : ∃ next ack',
      b.handle (heard.responseMessage b.id net.now) net.now = .ok (next, ack') :=
    Node.handle_eq_ok_iff.mpr (Node.accepts_iff.mp accepts)
  have taken : b.takeReply n.id ack.reply net.now = .ok next := by
    rw [reply, Node.takeReply_response rfl same, handled]
  refine ⟨(net.counted.setNode heard).setNode (next.recordSuccess n.id ack.version net.now), next,
    ack', heard.responseMessage b.id net.now, ?_, handled, ?_,
    next.recordSuccess n.id ack.version net.now, ?_, rfl⟩
  · change (Snapshot.format.decode heard.fullState).toOption = _
    rw [readable]
    rfl
  · rw [pulled]
    simp only [Node.conclude, taken]
  · rw [node?_setNode]
    exact if_pos (Node.id_of_handle handled).symm

/-- A full state that cannot be read leaves the content of the one that asked as it was. -/
theorem Acquainted.pullFrom_unread (h : Acquainted net n b p policy.timeout) {fault : Json.Fault}
    (unread : Snapshot.format.decode n.fullState = .error fault) : ∃ net',
      net.pullFrom b n.id policy = (net', .error (.refused (.snapshot (.unreadable fault)))) ∧
      ∃ b', net'.node? b.id = some b' ∧ b'.threats = b.threats := by
  obtain ⟨heard, ack, same, content, reply, pulled⟩ := h.pullFrom_eq
  have unread : Snapshot.format.decode heard.fullState = .error fault := by
    rw [Node.fullState, content]
    exact unread
  have refused : b.handle (heard.responseMessage b.id net.now) net.now =
      .error (.snapshot (.unreadable fault)) := by
    obtain ⟨foreign, named, -, q, known, -⟩ := h.record
    have sender : (heard.responseMessage b.id net.now).sender = n.id := same
    have screened : b.screen (heard.responseMessage b.id net.now) = .ok () := by
      rw [Node.screen_eq_ok_iff, sender]
      exact ⟨named, foreign, Roster.contains_iff.mpr ⟨q, known⟩, .inr rfl⟩
    unfold Node.handle Node.broughtState Message.snapshot
    rw [screened]
    simp only [Node.responseMessage, Node.messageTo, unread]
    rfl
  have failed : b.takeReply n.id ack.reply net.now =
      .error (.refused (.snapshot (.unreadable fault))) := by
    rw [reply, Node.takeReply_response rfl same, refused]
  refine ⟨(net.counted.setNode heard).setNode (b.recordFailure n.id net.now), ?_,
    b.recordFailure n.id net.now, ?_, rfl⟩
  · rw [pulled]
    simp only [Node.conclude, failed]
  · rw [node?_setNode]
    exact if_pos rfl

end Acquaintances

/-- A document that is accepted nests at most 127 deep, and is passed on if it nests at most 123
deep: then the delta of its node reaches a new peer and is booked as a success, a full state that
the peer pulls is merged, and either way the peer reads the same document. If it nests deeper, both
fail, the peer takes in nothing, and the delta is booked as a failure. -/
theorem accepted_document_is_passed_on {net : Network} {s : Http.Surroundings} {n b : Node}
    {p : Peer} {r : Http.Request} {t : Http.Target} {o : Http.Outcome} (policy : Policy)
    (h : Acquainted net n b p policy.timeout)
    (unseen : p.version.count n.threats.owner ≤ n.version.count n.threats.owner)
    (posted : Http.serve? s n r t .threats "POST" = some (some o))
    (created : o.response.status = 201) :
    ∃ d id, Http.readBody .document r s.maxBody = .ok d ∧ d.string? "id" = some id ∧
      o.node.threats.get? id = some d ∧ d.tree.depth ≤ Json.maxDepth ∧
      (o.node.snapshot.EachDocument Travels →
        (∃ net', (net.setNode o.node).syncWith o.node p policy = (net', .ok ()) ∧
          (∃ b', net'.node? b.id = some b' ∧ b'.threats.get? id = some d) ∧
          ∃ n' p', net'.node? n.id = some n' ∧ n'.peers.get? b.id = some p' ∧
            p'.trust = Trust.after p.trust true ∧ p'.failures = 0) ∧
        ∃ net', (net.setNode o.node).pullFrom b n.id policy = (net', .ok ()) ∧
          ∃ b', net'.node? b.id = some b' ∧ b'.threats.get? id = some d) ∧
      (o.node.snapshot.EachDocument Carried → documentDepth < d.tree.depth →
        (∃ net' fault, (net.setNode o.node).syncWith o.node p policy =
            (net', .error (.transport (.undecodable fault))) ∧
          net'.node? b.id = some b ∧
          ∃ n' p', net'.node? n.id = some n' ∧ n'.peers.get? b.id = some p' ∧
            p'.trust = Trust.after p.trust false ∧ p'.failures = p.failures + 1) ∧
        ∃ net' fault, (net.setNode o.node).pullFrom b n.id policy =
            (net', .error (.refused (.snapshot (.unreadable fault)))) ∧
          ∃ b', net'.node? b.id = some b' ∧ b'.threats = b.threats) := by
  obtain ⟨d, id, read, named, put⟩ := Http.created_spec posted created
  obtain ⟨written, tick, r', stored, value, clock⟩ :=
    Node.putThreat?_spec (Document.isNull_of_string? named) put
  have shown : o.node.threats.get? id = some d :=
    (RegisterMap.get?_of_register? stored).trans value
  have foreign := h.record.1
  obtain ⟨-, -, blank, -⟩ := h.record
  have missing : b.threats.register? id = none := by
    rw [blank]
    rfl
  have same : o.node.id = n.id := by rw [written]
  have peers : o.node.peers = n.peers := by rw [written]
  have h : Acquainted (net.setNode o.node) o.node b p policy.timeout := by
    rw [written]
    exact h.write _
  -- The peer is not known to have the new register, so the delta holds it.
  have included : ((o.node.threats.delta p.version (net.setNode o.node).now).changes).get? id =
      some r' := by
    have ahead : ¬r'.clock ≤ p.version := fun le => by
      have counted := le n.threats.owner
      rw [clock, Clock.count_tick tick, if_pos rfl] at counted
      omega
    refine (SortedMap.get?_filter _ _ _).trans ?_
    have found : o.node.threats.registers.get? id = some r' := stored
    rw [found, Option.filter_some, Clock.descends_eq_false_iff.mpr ahead]
    rfl
  have listed : (id, r') ∈ o.node.threats.registers.entries := SortedMap.get?_eq_some_iff.mp stored
  refine ⟨d, id, read, named, shown, Http.depth_le_of_readBody read, fun travels => ⟨?_, ?_⟩,
    fun carried deep => ⟨?_, ?_⟩⟩
  · obtain ⟨next, ack, handled, synced⟩ := h.syncWith_arrives travels
    refine ⟨_, synced, ⟨next, ?_, ?_⟩, o.node.recordSuccess b.id ack.version net.now,
      p.succeed ack.version net.now, ?_, ?_, rfl, rfl⟩
    · have reached := Node.id_of_handle handled
      rw [node?_setNode, node?_setNode, if_pos reached.symm]
      exact if_neg (same ▸ foreign.symm)
    · have taken := Node.register?_of_handle handled rfl missing included
      exact (RegisterMap.get?_of_register? taken).trans value
    · rw [node?_setNode]
      exact if_pos same.symm
    · exact (Roster.get?_adjust _ _ _ _).trans ((if_pos rfl).trans (by rw [h.known]; rfl))
  · obtain ⟨net', next, ack, m, brings, handled, pulled, b', there, threats⟩ :=
      h.pullFrom_arrives travels
    rw [same] at pulled
    refine ⟨net', pulled, b', there, ?_⟩
    have taken := Node.register?_of_handle handled brings missing stored
    rw [threats]
    exact (RegisterMap.get?_of_register? taken).trans value
  · have tooDeep : ¬((net.setNode o.node).push o.node p).EachDocument
        (·.tree.depth ≤ documentDepth) := fun shallow => by
      have bound := shallow (id, r') (SortedMap.get?_eq_some_iff.mp included) d value
      omega
    obtain ⟨fault, unread⟩ := Message.unreadable (m := (net.setNode o.node).push o.node p)
      (Registers.EachDocument.delta carried p.version net.now) tooDeep
    refine ⟨_, fault, h.syncWith_unread unread, ?_, o.node.recordFailure b.id net.now,
      p.fail net.now, ?_, ?_, rfl, rfl⟩
    · rw [node?_setNode]
      exact (if_neg (same ▸ foreign.symm)).trans h.there
    · rw [node?_setNode]
      exact if_pos same.symm
    · exact (Roster.get?_adjust _ _ _ _).trans ((if_pos rfl).trans (by rw [h.known]; rfl))
  · have tooDeep : ¬o.node.snapshot.EachDocument (·.tree.depth ≤ documentDepth) := fun shallow => by
      have bound := shallow (id, r') listed d value
      omega
    obtain ⟨fault, unread⟩ := Snapshot.unreadable carried tooDeep
    obtain ⟨net', pulled, kept⟩ := h.pullFrom_unread unread
    rw [same] at pulled
    exact ⟨net', fault, pulled, kept⟩

section Sample

/-- Two nodes that know each other. -/
def neighbours : Network :=
  ((((empty 7).setNode (acquaintance "a" "b" "b:1")).setNode (acquaintance "b" "a" "a:1")).listen
    "a:1" (.node "a")).listen "b:1" (.node "b")

/-- So many arrays, one in the other. -/
def nest : Nat → Json.Tree
  | 0 => .null
  | levels + 1 => .list [nest levels]

theorem canonical_nest : ∀ levels, (nest levels).Canonical
  | 0 => trivial
  | levels + 1 => ⟨⟨canonical_nest levels, trivial⟩, rfl⟩

theorem integral_nest : ∀ levels, (nest levels).Integral
  | 0 => trivial
  | levels + 1 => ⟨integral_nest levels, trivial⟩

theorem depth_nest : ∀ levels, (nest levels).depth = levels
  | 0 => rfl
  | levels + 1 => congrArg (· + 1) ((Nat.max_zero _).trans (depth_nest levels))

/-- A document with an id and a nest. -/
def nested (levels : Nat) : Document where
  tree := .record [("id", .string "x"), ("v", nest levels)]
  canonical :=
    ⟨.cons (fun _ member => List.mem_singleton.mp member ▸ ⟨"id", "v", rfl, rfl, by decide⟩)
      (.cons nofun .nil), ⟨⟨_, rfl⟩, trivial, ⟨_, rfl⟩, canonical_nest levels, trivial⟩, rfl⟩

theorem depth_nested (levels : Nat) : (nested levels).tree.depth = levels + 1 := by
  simp [nested, Json.Tree.record, Json.Tree.depth, Json.Tree.depthMembers, depth_nest]

theorem carried_nested (levels : Nat) : Carried (nested levels) :=
  ⟨Document.portable_of_integral ⟨trivial, integral_nest levels, trivial⟩, rfl⟩

theorem acquainted_neighbours : Acquainted neighbours (acquaintance "a" "b" "b:1")
    (acquaintance "b" "a" "a:1") ((Roster.newPeer ⟨"b", "b:1", [], none⟩ 0).refresh 0) 5000 where
  here := rfl
  there := rfl
  known := rfl
  own := rfl
  named := by decide
  new := ⟨⟨"a", "a:1", [], none⟩, 0, rfl, rfl, _, rfl, rfl, by decide⟩
  reached := ⟨_, rfl, rfl, by decide⟩

/-- A node accepts a nest of up to 126 arrays under an id. -/
theorem nested_accepted (levels : Nat) (fits : levels < Json.maxDepth) : ∃ o,
    Http.serve? ⟨7, 0, 0, (Json.Format.document.encode (nested levels)).utf8ByteSize⟩
        (acquaintance "a" "b" "b:1") ⟨"POST", "/federation/threats", some "application/json",
          Json.Format.document.encode (nested levels)⟩ (.ofString "/federation/threats") .threats
        "POST" = some (some o) ∧
      o.response.status = 201 ∧ o.node.snapshot.EachDocument (· = nested levels) := by
  have read := Http.readBody_encode (carried_nested levels).1 (by rw [depth_nested]; exact fits)
    "/federation/threats"
  simp only [Http.serve?, read]
  refine ⟨_, rfl, rfl, fun e member d live => ?_⟩
  obtain rfl := List.mem_singleton.mp (show e ∈ [_] from member)
  exact (Option.some.inj live).symm

/-- A nest of 122 arrays under an id is passed on; one array more, and nothing is. -/
theorem nested_document_is_passed_on :
    (∃ n' net' b', neighbours.node? "a" = some (acquaintance "a" "b" "b:1") ∧
      (neighbours.setNode n').syncWith n' ((Roster.newPeer ⟨"b", "b:1", [], none⟩ 0).refresh 0)
        ⟨30000, 3, 5000, none⟩ = (net', .ok ()) ∧ net'.node? "b" = some b' ∧
      b'.threats.get? "x" = some (nested 122)) ∧
    ∃ n' net' fault, n'.threats.get? "x" = some (nested 123) ∧
      (neighbours.setNode n').syncWith n' ((Roster.newPeer ⟨"b", "b:1", [], none⟩ 0).refresh 0)
        ⟨30000, 3, 5000, none⟩ = (net', .error (.transport (.undecodable fault))) := by
  have name (levels : Nat) : (nested levels).string? "id" = some "x" := rfl
  constructor
  · obtain ⟨o, posted, created, holds⟩ := nested_accepted 122 (by decide)
    obtain ⟨d, id, -, named, stored, -, passes, -⟩ := accepted_document_is_passed_on
      ⟨30000, 3, 5000, none⟩ acquainted_neighbours (Nat.zero_le _) posted created
    obtain rfl := Registers.EachDocument.of_get? holds stored
    obtain rfl := Option.some.inj (named.symm.trans (name 122))
    have travels := Registers.EachDocument.imp holds fun d same => same ▸
      (⟨carried_nested 122, le_of_eq_of_le (depth_nested 122) (by decide)⟩ : Travels (nested 122))
    obtain ⟨⟨net', synced, ⟨b', there, shown⟩, -⟩, -⟩ := passes travels
    exact ⟨o.node, net', b', rfl, synced, there, shown⟩
  · obtain ⟨o, posted, created, holds⟩ := nested_accepted 123 (by decide)
    obtain ⟨d, id, -, named, stored, -, -, stops⟩ := accepted_document_is_passed_on
      ⟨30000, 3, 5000, none⟩ acquainted_neighbours (Nat.zero_le _) posted created
    obtain rfl := Registers.EachDocument.of_get? holds stored
    obtain rfl := Option.some.inj (named.symm.trans (name 123))
    have carried := Registers.EachDocument.imp holds fun d same => same ▸ carried_nested 123
    obtain ⟨⟨net', fault, synced, -⟩, -⟩ := stops carried
      (lt_of_lt_of_eq (by decide) (depth_nested 123).symm)
    exact ⟨o.node, net', fault, stored, synced⟩

end Sample

end Network

end ThreatGossip

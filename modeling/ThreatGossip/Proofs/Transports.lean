import ThreatGossip.Http.Client
import ThreatGossip.Http.Router
import ThreatGossip.Proofs.Deliveries
/-!
Two ways to one node. A message that is handed over within a process and one that is posted to the
node's HTTP interface do the same there, and what comes back says the same: the acknowledgment, or
why the message was refused.
-/
namespace ThreatGossip

open Json (Tree)

/-- A text that is read as a whole is read the same when what follows does not matter. -/
theorem Json.Format.decodeFront_of_decode {α : Type} {f : Json.Format α} {text : String} {a : α}
    (read : f.decode text = .ok a) : f.decodeFront text = .ok a := by
  obtain ⟨t, rest, scanned, -, value⟩ := decode_eq_ok_iff.mp read
  rw [decodeFront, scanned]
  exact value

namespace Http

variable {n : Node} {m : Message} {s : Surroundings}

/-- Why a node refuses a message, and the status that says so. -/
inductive Verdict (n : Node) (m : Message) : Refusal → Nat → Prop
  | nameless : m.sender = "" → Verdict n m .missingSender 400
  | echoed : m.sender = n.id → Verdict n m .fromSelf 400
  | astray : m.recipient ≠ "" → m.recipient ≠ n.id →
      Verdict n m (.misaddressed m.recipient) 400
  | unknown : n.peers.contains m.sender = false →
      Verdict n m (.peer (.unknownPeer m.sender)) 403
  | unreadable {text : String} {fault : Json.Fault} :
      m.payload = .full text ∨ m.payload = .response text →
      Snapshot.format.decode text = .error fault →
      Verdict n m (.snapshot (.unreadable fault)) 422

theorem verdict_of_broughtState {e : Refusal} (unread : Node.broughtState m = .error e) :
    Verdict n m e (refusalStatus e) := by
  unfold Node.broughtState Message.snapshot at unread
  cases payload : m.payload with
  | delta threats rules metrics | request =>
      rw [payload] at unread
      nomatch unread
  | full text | response text =>
      rw [payload] at unread
      dsimp only at unread
      cases read : Snapshot.format.decode text with
      | ok s =>
          rw [read] at unread
          nomatch unread
      | error fault =>
          rw [read] at unread
          obtain rfl := Except.error.inj unread
          exact .unreadable (by simp [payload]) read

theorem verdict_of_handle {now : Millis} {e : Refusal} (refused : n.handle m now = .error e) :
    Verdict n m e (refusalStatus e) := by
  cases screened : n.screen m with
  | error e' =>
      unfold Node.handle at refused
      rw [screened] at refused
      obtain rfl := Except.error.inj refused
      unfold Node.screen at screened
      split at screened
      next nameless =>
        obtain rfl := Except.error.inj screened
        exact .nameless nameless
      next =>
      split at screened
      next echoed =>
        obtain rfl := Except.error.inj screened
        exact .echoed echoed
      next =>
      split at screened
      next astray =>
        obtain rfl := Except.error.inj screened
        exact .astray astray.1 astray.2
      next =>
      split at screened
      next unknown =>
        obtain rfl := Except.error.inj screened
        exact .unknown (by simpa using unknown)
      next => nomatch screened
  | ok u =>
      unfold Node.handle at refused
      rw [screened] at refused
      cases read : Node.broughtState m with
      | error e' =>
          rw [read] at refused
          obtain rfl := Except.error.inj refused
          exact verdict_of_broughtState read
      | ok brought =>
          rw [read] at refused
          cases payload : m.payload <;> rw [payload] at refused <;> nomatch refused

/-- The resource that a request is for. -/
def Request.resource? (r : Request) : Option Resource :=
  (Target.ofString r.target).segments.bind Resource.ofSegments?

/-- A body that cannot be read is answered with a status of 4xx. -/
theorem status_of_readBody {α : Type} {f : Json.Format α} {r : Request} {maxBody : Nat}
    {response : Response} (failed : readBody f r maxBody = .error response) :
    response.status / 100 = 4 := by
  unfold readBody at failed
  split at failed
  · exact Except.error.inj failed ▸ (by decide)
  split at failed
  · exact Except.error.inj failed ▸ (by decide)
  split at failed
  · contradiction
  · exact Except.error.inj failed ▸ (by decide)
  · exact Except.error.inj failed ▸ (by decide)

section Routes

variable {r : Request} {resource : Resource} {method : String}

/-- A request that has a route, other than one for the head of an answer, is served as it stands. -/
theorem respond_routed {o : Option Outcome} (routed : r.resource? = some resource)
    (asked : r.method = method) (whole : method ≠ "HEAD")
    (served : serve? s n r (Target.ofString r.target) resource method = some o) :
    respond s n r = o := by
  unfold Request.resource? at routed
  unfold respond
  simp only [routed, asked, if_neg whole, served]

/-- A resource refuses the methods that it does not have. -/
theorem respond_unserved (routed : r.resource? = some resource) (asked : r.method = method)
    (whole : method ≠ "HEAD")
    (unserved : serve? s n r (Target.ofString r.target) resource method = none) :
    respond s n r = some (.unchanged n (.empty 405)) := by
  unfold Request.resource? at routed
  unfold respond
  simp only [routed, asked, if_neg whole, unserved]

/-- A peer is removed under the id that the last segment of the path spells. -/
theorem respond_peer {segment id : String} (routed : r.resource? = some (.peer segment))
    (deleted : r.method = "DELETE") (spelled : segmentText? segment = some id) :
    respond s n r = some (removePeer n id) := by
  have served : serve? s n r (Target.ofString r.target) (.peer segment) "DELETE" =
      some (some (removePeer n id)) := by
    simp only [serve?, spelled]
  exact respond_routed routed deleted (by decide) served

theorem respond_rule {segment rule : String} (routed : r.resource? = some (.rule segment))
    (deleted : r.method = "DELETE") (spelled : segmentText? segment = some rule) :
    respond s n r = some (removeRule n rule) := by
  have served : serve? s n r (Target.ofString r.target) (.rule segment) "DELETE" =
      some (some (removeRule n rule)) := by
    simp only [serve?, spelled]
  exact respond_routed routed deleted (by decide) served

end Routes

/-- The router hands a message that was posted to the node. -/
theorem respond_sync {r : Request} (target : r.target = syncPath) (post : r.method = "POST") :
    respond s n r = some (match readBody Message.format r s.maxBody with
      | .ok m => takeSync n m s.now
      | .error response => .unchanged n response) := by
  have routed : r.resource? = some .sync := by
    unfold Request.resource?
    rw [target]
    decide
  exact respond_routed routed post (by decide) rfl

theorem respond_syncRequest (own : Message.format.decode (Message.format.encode m) = .ok m)
    (fits : (Message.format.encode m).utf8ByteSize ≤ s.maxBody) :
    respond s n (syncRequest m) = some (takeSync n m s.now) := by
  have read : readBody Message.format (syncRequest m) s.maxBody = .ok m := by
    have type : isJsonType "application/json" = true := by decide
    have front := Json.Format.decodeFront_of_decode own
    unfold readBody syncRequest
    simp only [Option.any_some, type, front]
    rw [if_neg (by decide), if_neg (Nat.not_lt.mpr fits)]
  rw [respond_sync rfl rfl, read]

/-- The client makes of the router's answer to a message what the node made of the message. -/
theorem acknowledgment_takeSync (now : Millis) :
    acknowledgment (takeSync n m now).response.status (takeSync n m now).response.text =
      match n.handle m now with
      | .ok (_, ack) => .ok ack
      | .error e => .error (.status (refusalStatus e)
          (Tree.record [("error", .string e.message)]).text) := by
  unfold takeSync
  cases handled : n.handle m now with
  | ok result =>
      obtain ⟨next, ack⟩ := result
      have given : acknowledgment 200 (Acknowledgment.format.encode ack) = .ok ack := by
        unfold acknowledgment
        rw [if_neg (by decide), Acknowledgment.decode_encode_of_handle handled]
      exact given
  | error e =>
      have verdict := verdict_of_handle handled
      have failed : refusalStatus e / 100 ≠ 2 := by
        generalize refusalStatus e = code at verdict
        cases verdict <;> decide
      exact if_pos failed

end Http

namespace Http

variable {n : Node} {m : Message} {s : Surroundings} {net : Network} {address : String}
  {server : Request → Response}

/-- What the two ways of sending a message to a node come to. -/
inductive Agree (n : Node) (m : Message) :
    Except TransportError Acknowledgment → Except ClientError Acknowledgment → Prop
  | acknowledged (ack : Acknowledgment) : Agree n m (.ok ack) (.ok ack)
  | refused {e : Refusal} {code : Nat} : Verdict n m e code →
      Agree n m (.error (.rejected e.message))
        (.error (.status code (Tree.record [("error", .string e.message)]).text))

/-- A message that is read as it was written and fits the router's limit does the same at a node,
whether it is handed over within the process or posted to a server that answers as the router of the
node does. -/
theorem transports_agree (up : net.endpoint? address = some ⟨.node n.id, false, 0⟩)
    (here : net.node? n.id = some n) (clock : s.now = net.now)
    (own : Message.format.decode (Message.format.encode m) = .ok m)
    (fits : (Message.format.encode m).utf8ByteSize ≤ s.maxBody)
    (serves : ∀ o, respond s n (syncRequest m) = some o → server (syncRequest m) = o.response) :
    ∃ o, respond s n (syncRequest m) = some o ∧
      (net.send address m).1.node? n.id = some o.node ∧
      Agree n m (net.send address m).2 (send (some server) m) := by
  have routed := respond_syncRequest (n := n) own fits
  refine ⟨_, routed, ?_⟩
  have posted : send (some server) m =
      acknowledgment (takeSync n m s.now).response.status (takeSync n m s.now).response.text := by
    rw [← serves _ routed]
    rfl
  have sent : net.send address m = net.deliver (.node n.id) m := by
    unfold Network.send
    rw [up]
  rw [posted, acknowledgment_takeSync, sent, Network.deliver_node own here, clock]
  unfold takeSync
  cases handled : n.handle m net.now with
  | ok result =>
      obtain ⟨next, ack⟩ := result
      refine ⟨?_, .acknowledged ack⟩
      rw [Network.node?_setNode, if_pos (Node.id_of_handle handled).symm]
  | error e => exact ⟨here, .refused (verdict_of_handle handled)⟩

/-- A server that answers as the router of a node. -/
def serverOf (s : Surroundings) (n : Node) (r : Request) : Response :=
  ((respond s n r).map (·.response)).getD (.empty 500)

/-- A request for the state of a node. -/
def inquiry : Message := ⟨"b", "a", 5, .empty, .request⟩

def inquired : Node := Network.acquaintance "a" "b" "b:1"

/-- A router that takes just what the request needs. -/
def narrow : Surroundings := ⟨9, 0, 0, (Message.format.encode inquiry).utf8ByteSize⟩

/-- A network with the node alone. -/
def within : Network := ((Network.empty 9).setNode inquired).listen "a:1" (.node "a")

/-- A node that is asked for its state by the peer that it knows answers either way. -/
theorem inquiry_answered_either_way : ∃ o, respond narrow inquired (syncRequest inquiry) = some o ∧
    (within.send "a:1" inquiry).1.node? inquired.id = some o.node ∧
    Agree inquired inquiry (within.send "a:1" inquiry).2
      (send (some (serverOf narrow inquired)) inquiry) := by
  have own : Message.format.decode (Message.format.encode inquiry) = .ok inquiry :=
    Message.decode_encode_of_travels trivial
  have here : within.node? inquired.id = some inquired :=
    (Network.node?_setNode _ inquired inquired.id).trans (if_pos rfl)
  refine transports_agree rfl here rfl own (Nat.le_refl _) fun o answered => ?_
  unfold serverOf
  rw [answered]
  rfl

end Http

end ThreatGossip

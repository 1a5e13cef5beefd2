import ThreatGossip.Http.Address
import ThreatGossip.Http.MediaType
import ThreatGossip.Http.Message
import ThreatGossip.Http.Target
import ThreatGossip.Wire.Peers
/-!
The HTTP interface of a node. A request is matched to a resource and a method, its parameters and
its body are read, and only then is the node asked to do something; a request that fails on the way
leaves the node as it was.
-/
namespace ThreatGossip.Http

open Json (Document Fault Format Tree)

inductive Resource where
  | health
  | sync
  | peers
  | peerList
  | peer (segment : String)
  | threats
  | rules
  | rule (segment : String)
  deriving DecidableEq, Repr

/-- The resource of a path; a fixed name goes before a parameter, and a parameter is never empty. -/
def Resource.ofSegments? : List String → Option Resource
  | ["health"] => some .health
  | ["federation", "sync"] => some .sync
  | ["federation", "peers"] => some .peers
  | ["federation", "peers", "list"] => some .peerList
  | ["federation", "peers", segment] => if segment = "" then none else some (.peer segment)
  | ["federation", "threats"] => some .threats
  | ["federation", "rules"] => some .rules
  | ["federation", "rules", segment] => if segment = "" then none else some (.rule segment)
  | _ => none

/-- What a request may draw on: the time, and eight random bytes for a rule tag. -/
structure Surroundings where
  now : Millis
  nonce : UInt64
  nanos : Nat
  maxBody : Nat

structure Outcome where
  node : Node
  response : Response
  /-- Whether the random bytes were used. -/
  minted : Bool

def Outcome.unchanged (n : Node) (r : Response) : Outcome := ⟨n, r, false⟩

/-- The value of a JSON body: the content type is checked first, then the length, then the text. What
follows a complete value is not looked at. -/
def readBody {α : Type} (f : Format α) (r : Request) (maxBody : Nat) : Except Response α :=
  if !r.contentType.any isJsonType then .error (.plain 415)
  else if maxBody < r.body.utf8ByteSize then .error (.plain 413)
  else match f.decodeFront r.body with
    | .ok a => .ok a
    | .error .misshapen => .error (.plain 422)
    | .error _ => .error (.plain 400)

def refusalStatus : Refusal → Nat
  | .peer (.unknownPeer _) => 403
  | .snapshot _ => 422
  | _ => 400

def refusalResponse (r : Refusal) : Response := .error (refusalStatus r) r.message

def segmentText? (segment : String) : Option String := Utf8.strict? (percentDecode segment.toList)

def ruleFormat : Format String := (Json.Record.field "rule_id" Format.string).format

def health (n : Node) : Response :=
  .json 200 (.record [("status", .string "healthy"), ("node_id", .string n.id),
    ("threat_intel_root", .string n.digest.root.hex)])

def takeSync (n : Node) (m : Message) (now : Millis) : Outcome :=
  match n.handle m now with
  | .ok (next, ack) => ⟨next, .json 200 (Acknowledgment.format.write ack), false⟩
  | .error r => .unchanged n (refusalResponse r)

def addPeer (n : Node) (i : Introduction) (now : Millis) : Outcome :=
  match n.addPeer i now with
  | .ok next =>
    ⟨next, .json 201 (.record [("status", .string "added"), ("id", .string i.id)]), false⟩
  | .error e => .unchanged n (refusalResponse (.peer e))

def removePeer (n : Node) (id : String) : Outcome :=
  if n.peers.contains id then ⟨n.removePeer id, .empty 204, false⟩
  else .unchanged n (.error 404 ("Unknown peer: " ++ id))

/-- Stores a document under its own id; nothing when the node's clock slot is full. -/
def putThreat (n : Node) (d : Document) (now : Millis) : Option Outcome :=
  match (d.string? "id").filter (· ≠ "") with
  | some id => (n.putThreat? id d now).map fun next =>
    ⟨next, .json 201 (.record [("status", .string "stored"), ("id", .string id)]), false⟩
  | none => some (.unchanged n (.error 400 "Threat intel needs a string id"))

def getThreat (n : Node) (id : String) : Response :=
  match n.threats.get? id with
  | some d => .json 200 d.tree
  | none => .error 404 ("No threat intel for " ++ id)

def addRule (n : Node) (rule : String) (s : Surroundings) : Outcome :=
  if rule = "" then .unchanged n (.error 400 "rule_id cannot be empty")
  else
    let tag := Node.mintTag n.id s.nonce s.nanos
    ⟨n.addRule rule tag, .json 201 (.record [("status", .string "added"),
      ("rule_id", .string rule), ("tag", .string tag)]), true⟩

def listRules (n : Node) : Response :=
  let rules := n.rules.toList
  .json 200 (.record [("rules", .list (rules.map .string)),
    ("count", .number (.integer rules.length))])

def removeRule (n : Node) (rule : String) : Outcome :=
  if n.rules.contains rule then ⟨n.removeRule rule, .empty 204, false⟩
  else ⟨n.removeRule rule, .error 404 ("Unknown rule: " ++ rule), false⟩

/-- Answers a request for a resource that has the method. -/
def serve? (s : Surroundings) (n : Node) (r : Request) (t : Target) :
    Resource → String → Option (Option Outcome)
  | .health, "GET" => some (some (.unchanged n (health n)))
  | .sync, "POST" => some <| some <| match readBody Message.format r s.maxBody with
    | .ok m => takeSync n m s.now
    | .error response => .unchanged n response
  | .peers, "POST" => some <| some <| match readBody Introduction.format r s.maxBody with
    | .ok i => addPeer n i s.now
    | .error response => .unchanged n response
  | .peers, "GET" => some (some (.unchanged n (.json 200 (Summary.format.write n.summary))))
  | .peerList, "GET" =>
    some (some (.unchanged n (.json 200 (.list (n.peers.list.map Peer.format.write)))))
  | .peer segment, "DELETE" => some <| some <| match segmentText? segment with
    | some id => removePeer n id
    | none => .unchanged n (.plain 400)
  | .threats, "POST" => some <| match readBody .document r s.maxBody with
    | .ok d => putThreat n d s.now
    | .error response => some (.unchanged n response)
  | .threats, "GET" => some <| some <| match t.field? "id" with
    | some id => .unchanged n (getThreat n id)
    | none => .unchanged n (.plain 400)
  | .rules, "POST" => some <| some <| match readBody ruleFormat r s.maxBody with
    | .ok rule => addRule n rule s
    | .error response => .unchanged n response
  | .rules, "GET" => some (some (.unchanged n (listRules n)))
  | .rule segment, "DELETE" => some <| some <| match segmentText? segment with
    | some rule => removeRule n rule
    | none => .unchanged n (.plain 400)
  | _, _ => none

/-- Drops the body, as the answer to a `HEAD` request does. -/
def Outcome.headOnly (o : Outcome) : Outcome :=
  { o with response := { o.response with body := .empty } }

/-- Answers a request; nothing when a write meets the node's full clock slot. -/
def respond (s : Surroundings) (n : Node) (r : Request) : Option Outcome :=
  let t := Target.ofString r.target
  match t.segments.bind Resource.ofSegments? with
  | none => some (.unchanged n (.empty 404))
  | some resource =>
    match serve? s n r t resource (if r.method = "HEAD" then "GET" else r.method) with
    | some outcome => if r.method = "HEAD" then outcome.map Outcome.headOnly else outcome
    | none => some (.unchanged n (.empty 405))

end ThreatGossip.Http

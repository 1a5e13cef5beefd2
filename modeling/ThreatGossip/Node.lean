import ThreatGossip.Merkle
import ThreatGossip.Roster
import ThreatGossip.Wire.Message
/-!
One node: the threats, rules and metrics it replicates, and the peers it knows. Every operation is a
function of the state and, where it reads the clock, of the time. An operation that is refused
returns no state, so nothing can be half done.
-/
namespace ThreatGossip

open Json (Document Tree)

/-- The state of a node; `lastFullSync` is when it last took in another one's full state. -/
structure Node where
  id : NodeId
  threats : ThreatMap
  rules : ObservedSet String
  metrics : Counter
  peers : Roster
  lastFullSync : Option Millis

inductive Refusal where
  | peer (e : PeerError)
  | missingSender
  | fromSelf
  | misaddressed (recipient : NodeId)
  | snapshot (e : SnapshotError)

namespace SnapshotError

/-- The wording of an unreadable snapshot stops where the reader's own would begin. -/
def message : SnapshotError → String
  | unreadable _ => "serialization error:"
  | noState kind => "unexpected payload: expected full or response, got " ++ kind.name

end SnapshotError

namespace Refusal

def message : Refusal → String
  | peer e => e.message
  | missingSender => "Invalid sync message: missing sender"
  | fromSelf => "Invalid sync message: message from self"
  | misaddressed recipient => "Invalid sync message: addressed to " ++ recipient
  | snapshot e => "Snapshot error: " ++ e.message

end Refusal

structure Summary where
  id : NodeId
  census : Census
  threats : Nat
  rules : Nat
  metric : Int
  lastFullSync : Option Millis
  root : String
  deriving DecidableEq

namespace Node

def empty (id : NodeId) : Node :=
  ⟨id, .empty id, .empty, .empty id, .empty id, none⟩

/-- Stores a document; `null` deletes. Nothing when the node's clock slot is full. -/
def putThreat? (n : Node) (key : String) (d : Document) (now : Millis) : Option Node :=
  (n.threats.put? key (if d.isNull then none else some d) now).map ({ n with threats := · })

def deleteThreat? (n : Node) (key : String) (now : Millis) : Option Node :=
  (n.threats.put? key none now).map ({ n with threats := · })

/-- What the node knows of the threats. -/
def version (n : Node) : Clock := n.threats.version

/-- The bytes that stand for one register in the digest: the JSON text `["key",register]`. -/
def block (e : String × Register (Option Document)) : List UInt8 :=
  let register := (Register.recordOf (optionalValue .document)).format.write e.2
  (Tree.list [.string e.1, register]).text.toUTF8.toList

/-- The hash tree over all registers, in key order. -/
def digest (n : Node) : MerkleTree :=
  .build Digest.sha256 (n.threats.registers.entries.map block)

/-- A tag for one insertion: the node, eight random bytes and the time in nanoseconds. -/
def mintTag (id : NodeId) (nonce : UInt64) (nanos : Nat) : String :=
  id ++ "-" ++ Hex.encode (Sha256.bigEndian 8 nonce.toNat) ++ "-" ++ toString nanos

def addRule (n : Node) (rule tag : String) : Node := { n with rules := n.rules.insert rule tag }

/-- Removes a rule; whether it was active is asked before. -/
def removeRule (n : Node) (rule : String) : Node := { n with rules := n.rules.erase rule }

def addMetric (n : Node) (amount : UInt64) : Node := { n with metrics := n.metrics.add amount }

def subtractMetric (n : Node) (amount : UInt64) : Node :=
  { n with metrics := n.metrics.subtract amount }

def addPeer (n : Node) (i : Introduction) (now : Millis) : Except PeerError Node :=
  (n.peers.register i now).map ({ n with peers := · })

def removePeer (n : Node) (id : NodeId) : Node := { n with peers := n.peers.remove id }

def recordSuccess (n : Node) (peer : NodeId) (acked : Clock) (now : Millis) : Node :=
  { n with peers := (n.peers.recordSuccess peer acked now).1 }

def recordFailure (n : Node) (peer : NodeId) (now : Millis) : Node :=
  { n with peers := (n.peers.recordFailure peer now).1 }

def snapshot (n : Node) : Snapshot := ⟨n.threats, n.rules, n.metrics⟩

def mergeSnapshot (n : Node) (s : Snapshot) (now : Millis) : Node :=
  { n with
    threats := n.threats.merge s.threats
    rules := n.rules.merge s.rules
    metrics := n.metrics.merge s.metrics
    lastFullSync := some now }

section Outbound

def messageTo (n : Node) (peer : NodeId) (payload : Payload) (now : Millis) : Message :=
  ⟨n.id, peer, now, n.version, payload⟩

/-- What a known peer is not known to have, with all rules and metrics. -/
def deltaMessage (n : Node) (peer : NodeId) (now : Millis) : Except PeerError Message :=
  match n.peers.version? peer with
  | some since =>
    .ok (n.messageTo peer (.delta (n.threats.delta since now) (some n.rules) (some n.metrics)) now)
  | none => .error (.unknownPeer peer)

def fullState (n : Node) : String := Snapshot.format.encode n.snapshot

def fullMessage (n : Node) (peer : NodeId) (now : Millis) : Message :=
  n.messageTo peer (.full n.fullState) now

def requestMessage (n : Node) (peer : NodeId) (now : Millis) : Message :=
  n.messageTo peer .request now

def responseMessage (n : Node) (peer : NodeId) (now : Millis) : Message :=
  n.messageTo peer (.response n.fullState) now

end Outbound

section Inbound

/-- Whether a message may be taken in at all: it has a sender, who is a known peer, and it is
addressed to this node or to nobody. -/
def screen (n : Node) (m : Message) : Except Refusal Unit :=
  if m.sender = "" then .error .missingSender
  else if m.sender = n.id then .error .fromSelf
  else if m.recipient ≠ "" ∧ m.recipient ≠ n.id then .error (.misaddressed m.recipient)
  else if !n.peers.contains m.sender then .error (.peer (.unknownPeer m.sender))
  else .ok ()

/-- The full state that a message brings, if it is of a kind that does. -/
def broughtState (m : Message) : Except Refusal (Option Snapshot) :=
  match m.payload with
  | .full _ | .response _ =>
    match m.snapshot with
    | .ok s => .ok (some s)
    | .error e => .error (.snapshot e)
  | .delta .. | .request => .ok none

def touchPeer (n : Node) (peer : NodeId) (now : Millis) : Node :=
  { n with peers := n.peers.adjust peer (·.touch now) }

def learnVersion (n : Node) (peer : NodeId) (version : Clock) : Node :=
  { n with peers := n.peers.learn peer version }

/-- Takes in a delta; rules and metrics may be missing from it. -/
def applyDelta (n : Node) (threats : Delta Document) (rules : Option (ObservedSet String))
    (metrics : Option Counter) : Node :=
  { n with
    threats := n.threats.apply threats
    rules := rules.elim n.rules n.rules.merge
    metrics := metrics.elim n.metrics n.metrics.merge }

/-- Handles a message: checks it, reads the state it brings, and only then changes anything. -/
def handle (n : Node) (m : Message) (now : Millis) : Except Refusal (Node × Acknowledgment) := do
  n.screen m
  let brought ← broughtState m
  let heard := n.touchPeer m.sender now
  match m.payload with
  | .delta threats rules metrics =>
    let next := (heard.applyDelta threats rules metrics).learnVersion m.sender m.version
    .ok (next, .synced next.version none)
  | .full _ | .response _ =>
    let merged := brought.elim heard fun s => heard.mergeSnapshot s now
    let next := merged.learnVersion m.sender m.version
    .ok (next, .synced next.version none)
  | .request => .ok (heard, .synced heard.version (some (heard.responseMessage m.sender now)))

end Inbound

def summary (n : Node) : Summary where
  id := n.id
  census := n.peers.census
  threats := n.threats.size
  rules := n.rules.toList.length
  metric := n.metrics.value
  lastFullSync := n.lastFullSync
  root := n.digest.root.hex

end Node

end ThreatGossip

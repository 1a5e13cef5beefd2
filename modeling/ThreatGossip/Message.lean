import ThreatGossip.Counter
import ThreatGossip.Json.Document
import ThreatGossip.ObservedSet
import ThreatGossip.RegisterMap
/-!
What nodes send each other. A message carries a delta, a full state, a request for a full state, or
the response to one; full states travel as JSON text. An acknowledgment carries the receiver's
version and, for a request, the response.
-/
namespace ThreatGossip

open Json (Document)

abbrev ThreatMap := RegisterMap Document

/-- Everything that a node shares. -/
structure Snapshot where
  threats : ThreatMap
  rules : ObservedSet String
  metrics : Counter

inductive MessageKind where
  | delta
  | full
  | request
  | response
  deriving DecidableEq, Repr

namespace MessageKind

def name : MessageKind → String
  | delta => "delta"
  | full => "full"
  | request => "request"
  | response => "response"

def all : List MessageKind := [delta, full, request, response]

end MessageKind

inductive Payload where
  | delta (threats : Delta Document) (rules : Option (ObservedSet String))
    (metrics : Option Counter)
  | full (state : String)
  | request
  | response (state : String)

def Payload.kind : Payload → MessageKind
  | delta .. => .delta
  | full _ => .full
  | request => .request
  | response _ => .response

/-- What one node sends another; `version` is what the sender knew when it wrote it. -/
structure Message where
  sender : NodeId
  recipient : NodeId
  timestamp : Millis
  version : Clock
  payload : Payload

/-- What a node answers to a message it took in; `reply` answers a request. -/
structure Acknowledgment where
  status : String
  version : Clock
  reply : Option Message

namespace Acknowledgment

/-- The message was taken in; `version` is what the receiver now knows. -/
def synced (version : Clock) (reply : Option Message) : Acknowledgment :=
  ⟨"synced", version, reply⟩

end Acknowledgment

end ThreatGossip

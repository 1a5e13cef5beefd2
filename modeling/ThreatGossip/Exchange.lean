import ThreatGossip.Node
/-!
One exchange as its initiator sees it: a message goes to a peer and ends in an acknowledgment or an
error. Either way the initiator books exactly one success or failure against the peer, except for an
exchange that it cancelled itself.
-/
namespace ThreatGossip

open Json (Fault)

inductive TransportError where
  | unreachable (address : String)
  | rejected (reason : String)
  | undecodable (fault : Fault)

/-- The wording of an undecodable acknowledgment stops where the reader's own would begin. -/
def TransportError.message : TransportError → String
  | unreachable address => "Peer unreachable: " ++ address
  | rejected reason => "Peer rejected message: " ++ reason
  | undecodable _ => "Invalid acknowledgment:"

inductive ExchangeError where
  | transport (e : TransportError)
  | timedOut (after : Nat)
  | cancelled
  | refused (r : Refusal)
  | noReply
  | wrongReply (kind : MessageKind) (sender : NodeId)

/-- A number of milliseconds: in seconds from one second up, without trailing zeros. -/
def durationText (millis : Nat) : String :=
  if millis = 0 then "0ns"
  else if millis < 1000 then toString millis ++ "ms"
  else
    let fraction := millis % 1000
    let digits := [fraction / 100, fraction / 10 % 10, fraction % 10]
    let kept := (digits.reverse.dropWhile (· == 0)).reverse
    toString (millis / 1000) ++ (if kept.isEmpty then "" else ".") ++
      String.join (kept.map toString) ++ "s"

def ExchangeError.message : ExchangeError → String
  | transport e => "Transport error: " ++ e.message
  | timedOut after => "Sync timed out after " ++ durationText after
  | cancelled => "Sync cancelled"
  | refused r => r.message
  | noReply => "Unexpected reply: request answered without state"
  | wrongReply kind sender => "Unexpected reply: " ++ kind.name ++ " from " ++ sender

/-- What an exchange is for: to hand over state, or to ask for it. -/
inductive Purpose where
  | push
  | pull
  deriving DecidableEq, Repr

namespace Node

/-- Takes in the state that answers a request: it must be there, be a response, and come from the
peer that was asked. -/
def takeReply (n : Node) (peer : NodeId) (reply : Option Message) (now : Millis) :
    Except ExchangeError Node :=
  match reply with
  | none => .error .noReply
  | some m =>
    if m.payload.kind ≠ .response ∨ m.sender ≠ peer then
      .error (.wrongReply m.payload.kind m.sender)
    else match n.handle m now with
      | .ok (next, _) => .ok next
      | .error r => .error (.refused r)

def conclude (n : Node) (purpose : Purpose) (peer : NodeId) (now : Millis)
    (outcome : Except ExchangeError Acknowledgment) : Node × Except ExchangeError Unit :=
  match outcome with
  | .error .cancelled => (n, .error .cancelled)
  | .error e => (n.recordFailure peer now, .error e)
  | .ok ack =>
    match purpose with
    | .push => (n.recordSuccess peer ack.version now, .ok ())
    | .pull =>
      match n.takeReply peer ack.reply now with
      | .ok next => (next.recordSuccess peer ack.version now, .ok ())
      | .error e => (n.recordFailure peer now, .error e)

end Node

end ThreatGossip

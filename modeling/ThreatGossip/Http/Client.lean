import ThreatGossip.Http.Address
import ThreatGossip.Http.Message
import ThreatGossip.Wire.Message
/-!
Sending a message over HTTP: a `POST` to the peer's sync URL, whose answer must have a status of
success and hold an acknowledgment.
-/
namespace ThreatGossip.Http

open Json (Fault)

inductive ClientError where
  | noConnection
  | status (code : Nat) (body : String)
  | undecodable (fault : Fault)

def ClientError.message : ClientError → String
  | noConnection => "HTTP error"
  | status code body => "Peer answered with status " ++ toString code ++ ": " ++ body
  | undecodable _ => "Invalid acknowledgment:"

def syncRequest (m : Message) : Request :=
  ⟨"POST", syncPath, some "application/json", Message.format.encode m⟩

def acknowledgment (status : Nat) (body : String) : Except ClientError Acknowledgment :=
  if status / 100 ≠ 2 then .error (.status status body)
  else match Acknowledgment.format.decode body with
    | .ok ack => .ok ack
    | .error e => .error (.undecodable e)

/-- Sends a message; `server` answers requests to the URL, if a connection can be made. -/
def send (server : Option (Request → Response)) (m : Message) :
    Except ClientError Acknowledgment :=
  match server with
  | none => .error .noConnection
  | some answer =>
    let r := answer (syncRequest m)
    acknowledgment r.status r.text

end ThreatGossip.Http

import ThreatGossip.Exchange
/-!
Nodes joined by a network of addresses. An address may be down or slow, and is answered by a node or
by an endpoint with a fixed answer. Messages and acknowledgments cross it as JSON text. Time on the
way is simulated: it passes in whole milliseconds beside the wall clock, which stands still.
-/
namespace ThreatGossip

inductive Responder where
  | node (id : NodeId)
  | fixed (ack : Acknowledgment)
  | refusing (reason : String)

/-- An address: who answers there, whether it is down, and how many milliseconds a message takes. -/
structure Endpoint where
  responder : Responder
  down : Bool
  delay : Nat

/-- All nodes and addresses at one wall-clock time; `delivered` counts the messages handed over. -/
structure Network where
  now : Millis
  nodes : SortedMap NodeId Node
  endpoints : SortedMap String Endpoint
  delivered : Nat
  /-- How many rule tags have been minted. -/
  minted : Nat

inductive Fate where
  | unreachable
  | expires
  | arrives (r : Responder)

/-- An exchange under way: when it was sent off, and when it will be decided. -/
structure Flight where
  initiator : NodeId
  peer : NodeId
  address : String
  purpose : Purpose
  message : Message
  timeout : Nat
  fate : Fate
  departed : Nat
  due : Nat

namespace Network

def empty (now : Millis) : Network := ⟨now, .empty, .empty, 0, 0⟩

def node? (net : Network) (id : NodeId) : Option Node := net.nodes.get? id

def setNode (net : Network) (n : Node) : Network := { net with nodes := net.nodes.insert n.id n }

def adjustNode (net : Network) (id : NodeId) (f : Node → Node) : Network :=
  (net.node? id).elim net fun n => net.setNode (f n)

/-- Puts a responder at an address; it is up and answers at once. -/
def listen (net : Network) (address : String) (r : Responder) : Network :=
  { net with endpoints := net.endpoints.insert address ⟨r, false, 0⟩ }

def adjustEndpoint (net : Network) (address : String) (f : Endpoint → Endpoint) : Network :=
  match net.endpoints.get? address with
  | some e => { net with endpoints := net.endpoints.insert address (f e) }
  | none => net

def setDown (net : Network) (address : String) (down : Bool) : Network :=
  net.adjustEndpoint address fun e => { e with down }

def setDelay (net : Network) (address : String) (delay : Nat) : Network :=
  net.adjustEndpoint address fun e => { e with delay }

def endpoint? (net : Network) (address : String) : Option Endpoint :=
  (net.endpoints.get? address).filter (!·.down)

/-- Hands a message over: it is written and read again, handled, and so is the answer. -/
def deliver (net : Network) (r : Responder) (m : Message) :
    Network × Except TransportError Acknowledgment :=
  match Message.format.decode (Message.format.encode m) with
  | .error e => (net, .error (.undecodable e))
  | .ok m =>
    let net := { net with delivered := net.delivered + 1 }
    let (net, answer) : Network × Except String Acknowledgment :=
      match r with
      | .fixed ack => (net, .ok ack)
      | .refusing reason => (net, .error reason)
      | .node id =>
        match net.node? id with
        | none => (net, .error "")
        | some n =>
          match n.handle m net.now with
          | .ok (next, ack) => (net.setNode next, .ok ack)
          | .error e => (net, .error e.message)
    match answer with
    | .error reason => (net, .error (.rejected reason))
    | .ok ack =>
      match Acknowledgment.format.decode (Acknowledgment.format.encode ack) with
      | .ok ack => (net, .ok ack)
      | .error e => (net, .error (.undecodable e))

def send (net : Network) (address : String) (m : Message) :
    Network × Except TransportError Acknowledgment :=
  match net.endpoint? address with
  | some e => net.deliver e.responder m
  | none => (net, .error (.unreachable address))

/-- Sends a message off at a time. An answer that takes exactly as long as the timeout still
counts. -/
def depart (net : Network) (initiator peer : NodeId) (address : String) (purpose : Purpose)
    (message : Message) (timeout time : Nat) : Flight :=
  let (fate, due) : Fate × Nat :=
    match net.endpoint? address with
    | none => (.unreachable, time)
    | some e =>
      if e.delay ≤ timeout then (.arrives e.responder, time + e.delay)
      else (.expires, time + timeout)
  { initiator, peer, address, purpose, message, timeout, fate, departed := time, due }

/-- Decides a flight: the message is delivered or not, and the initiator books the outcome. -/
def land (net : Network) (f : Flight) : Network × Except ExchangeError Unit :=
  let (net, outcome) : Network × Except ExchangeError Acknowledgment :=
    match f.fate with
    | .unreachable => (net, .error (.transport (.unreachable f.address)))
    | .expires => (net, .error (.timedOut f.timeout))
    | .arrives r =>
      let (net, answer) := net.deliver r f.message
      (net, answer.mapError .transport)
  match net.node? f.initiator with
  | none => (net, outcome.map fun _ => ())
  | some n =>
    let (next, result) := n.conclude f.purpose f.peer net.now outcome
    (net.setNode next, result)

/-- Lands flights in the order in which they are decided, with their results. -/
def landAll (net : Network) (flights : List Flight) :
    Network × List (Except ExchangeError Unit) :=
  let (net, results) := (flights.mergeSort fun a b => a.due ≤ b.due).foldl
    (fun (net, results) f =>
      let (net, result) := net.land f
      (net, result :: results)) (net, [])
  (net, results.reverse)

end Network

end ThreatGossip

import ThreatGossip.Network
/-!
Anti-entropy: what a node does of its own accord. In a round it sends a delta to some of its
selectable peers, all at once; a loop runs rounds at a fixed interval and prunes the roster before
each; a new node pulls full states from the peers it starts with.
-/
namespace ThreatGossip

structure Policy where
  interval : Nat
  fanout : Nat
  timeout : Nat
  /-- The silence after which a stale peer is forgotten; never without one. -/
  evictionAge : Option Nat

structure RoundReport where
  selected : Nat
  succeeded : Nat
  failed : Nat
  deriving DecidableEq, Repr

/-- Draws `n` of a list: each draw is a number, taken modulo how many are left. -/
def draw {α : Type} : Nat → List Nat → List α → List α
  | 0, _, _ => []
  | n + 1, draws, as =>
    let i := draws.headD 0 % as.length
    match as[i]? with
    | some a => a :: draw n draws.tail (as.eraseIdx i)
    | none => []

namespace Node

/-- Standings brought up to date, and stale peers forgotten. -/
def prune (n : Node) (policy : Policy) (now : Millis) : Node × List NodeId :=
  let peers := n.peers.refreshAll now
  match policy.evictionAge with
  | some age => ({ n with peers := peers.evict age now }, peers.stale age now)
  | none => ({ n with peers }, [])

/-- Standings brought up to date, and `fanout` of the selectable peers. -/
def select (n : Node) (policy : Policy) (draws : List Nat) (now : Millis) : Node × List Peer :=
  let peers := n.peers.refreshAll now
  ({ n with peers }, draw policy.fanout draws peers.selectable)

end Node

/-- A flight that is decided together with the tick after the one it was sent off at. -/
def Flight.meetsTick (f : Flight) (interval time : Nat) : Bool :=
  f.departed + interval == time && f.due == time

namespace Network

def exchange (net : Network) (n : Node) (peer : NodeId) (address : String) (purpose : Purpose)
    (m : Message) (policy : Policy) : Network × Except ExchangeError Unit :=
  net.land (net.depart n.id peer address purpose m policy.timeout 0)

/-- Sends a peer what it is not known to have. -/
def syncWith (net : Network) (n : Node) (peer : Peer) (policy : Policy) :
    Network × Except ExchangeError Unit :=
  match n.deltaMessage peer.id net.now with
  | .ok m => net.exchange n peer.id peer.address .push m policy
  | .error e => (net, .error (.refused (.peer e)))

def pullFrom (net : Network) (n : Node) (id : NodeId) (policy : Policy) :
    Network × Except ExchangeError Unit :=
  match n.peers.get? id with
  | some p => net.exchange n id p.address .pull (n.requestMessage id net.now) policy
  | none => (net, .error (.refused (.peer (.unknownPeer id))))

def pushTo (net : Network) (n : Node) (id : NodeId) (policy : Policy) :
    Network × Except ExchangeError Unit :=
  match n.peers.get? id with
  | some p => net.exchange n id p.address .push (n.fullMessage id net.now) policy
  | none => (net, .error (.refused (.peer (.unknownPeer id))))

/-- Selects peers and sends each its delta, all at the same time. -/
def startRound (net : Network) (n : Node) (policy : Policy) (draws : List Nat) (time : Nat) :
    Network × List Flight :=
  let (n, peers) := n.select policy draws net.now
  let flights := peers.filterMap fun p =>
    match n.deltaMessage p.id net.now with
    | .ok m => some (net.depart n.id p.id p.address .push m policy.timeout time)
    | .error _ => none
  (net.setNode n, flights)

/-- A round. With a `deadline` the node is shut down after that time, and what is still under way
then is neither counted nor booked. -/
def round (net : Network) (n : Node) (policy : Policy) (draws : List Nat)
    (deadline : Option Nat) : Network × RoundReport :=
  let (net, flights) := net.startRound n policy draws 0
  let (net, results) :=
    net.landAll (flights.filter fun f => f.due = 0 ∨ deadline.all (f.due < ·))
  let succeeded := (results.filter Except.isOk).length
  (net, ⟨flights.length, succeeded, results.length - succeeded⟩)

/-- Lands the flights that are `due`; the others stay under way. -/
def landDue (net : Network) (flights : List Flight) (due : Flight → Bool) :
    Network × List Flight :=
  let (net, _) := net.landAll (flights.filter due)
  (net, flights.filter (!due ·))

/-- One tick of the loop at a time: what is due lands, the roster is pruned, a round starts. What is
due at one time is decided in the order in which it was set; a tick is set before the flights of the
tick before it are sent off, so those that meet it land after the pruning. -/
def tick (id : NodeId) (policy : Policy) (state : Network × List Flight) (time : Nat) :
    Network × List Flight :=
  let (net, flights) := state.1.landDue state.2 fun f =>
    f.due ≤ time && !f.meetsTick policy.interval time
  let net := net.adjustNode id fun n => (n.prune policy net.now).1
  let (net, flights) := net.landDue flights (·.due ≤ time)
  match net.node? id with
  | none => (net, flights)
  | some n =>
    let (net, started) := net.startRound n policy [] time
    let (net, waiting) := net.landDue started (·.due ≤ time)
    (net, flights ++ waiting)

/-- The loop for a length of time, its first round one interval after the start; what is under way
at the end is cancelled. -/
def runLoop (net : Network) (id : NodeId) (policy : Policy) (length : Nat) : Network :=
  let ticks := (List.range ((length - 1) / policy.interval)).map fun k => (k + 1) * policy.interval
  let (net, flights) := ticks.foldl (tick id policy) (net, [])
  (net.landDue flights (·.due < length)).1

/-- Pulls full states from the peers given, those that are registered, for a length of time. -/
def bootstrap (net : Network) (id : NodeId) (peers : List NodeId) (policy : Policy)
    (length : Nat) : Network :=
  let (net, flights) := peers.foldl (fun (net, flights) peer =>
    match net.node? id with
    | none => (net, flights)
    | some n =>
      match n.peers.get? peer with
      | none => (net, flights)
      | some p =>
        let f := net.depart id peer p.address .pull (n.requestMessage peer net.now) policy.timeout 0
        let (net, waiting) := net.landDue [f] (·.due = 0)
        (net, flights ++ waiting)) (net, [])
  (net.landDue flights (·.due < length)).1

end Network

end ThreatGossip

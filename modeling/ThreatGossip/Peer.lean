import ThreatGossip.Clock
/-!
Peers and the trust a node puts in them. Trust moves a twentieth of the way towards one with every
exchange that succeeds and towards zero with every one that fails. A peer's standing follows from
its trust and from how long it has been silent.
-/
namespace ThreatGossip

inductive Standing where
  | active
  | suspicious
  | quarantined
  | offline
  deriving DecidableEq, Repr

namespace Standing

def name : Standing → String
  | active => "active"
  | suspicious => "suspicious"
  | quarantined => "quarantined"
  | offline => "offline"

def all : List Standing := [active, suspicious, quarantined, offline]

/-- Only active and suspicious peers are sent anything in a round. -/
def selectable : Standing → Bool
  | active | suspicious => true
  | quarantined | offline => false

end Standing

structure Introduction where
  id : NodeId
  address : String
  publicKey : List UInt8
  trust : Option Float

structure Peer where
  id : NodeId
  address : String
  publicKey : List UInt8
  lastSeen : Millis
  standing : Standing
  trust : Float
  version : Clock
  failures : UInt32
  deriving DecidableEq

namespace Trust

def initial : Float := 0.5

/-- The weight of the newest exchange. -/
def weight : Float := 0.05

def suspiciousBelow : Float := 0.3

def quarantinedBelow : Float := 0.1

def clamp (x : Float) : Float := if x < 0.0 then 0.0 else if 1.0 < x then 1.0 else x

/-- The score after one more exchange. -/
def after (trust : Float) (succeeded : Bool) : Float :=
  clamp ((1.0 - weight) * trust + weight * (if succeeded then 1.0 else 0.0))

/-- The score of a new peer: the one given, if it is a positive finite number. -/
def ofGiven (given : Option Float) : Float :=
  clamp ((given.filter fun x => 0.0 < x && x.isFinite).getD initial)

end Trust

/-- A peer is offline after five minutes of silence. -/
def offlineAfter : Nat := 300000

structure StandingChange where
  peer : NodeId
  before : Standing
  after : Standing
  trust : Float

namespace Peer

/-- The standing that a peer's trust and silence give it at a time. -/
def standingAt (p : Peer) (now : Millis) : Standing :=
  if p.trust < Trust.quarantinedBelow then .quarantined
  else if p.trust < Trust.suspiciousBelow then .suspicious
  else if offlineAfter < elapsed p.lastSeen now then .offline
  else .active

def refresh (p : Peer) (now : Millis) : Peer := { p with standing := p.standingAt now }

/-- How the standing moved between two states of a peer, if it did. -/
def changeFrom (old new : Peer) : Option StandingChange :=
  if old.standing = new.standing then none
  else some ⟨new.id, old.standing, new.standing, new.trust⟩

def touch (p : Peer) (now : Millis) : Peer :=
  { p with lastSeen := max p.lastSeen now }.refresh now

def learn (p : Peer) (version : Clock) : Peer := { p with version := p.version.join version }

/-- An exchange succeeded, and the peer acknowledged `acked`. -/
def succeed (p : Peer) (acked : Clock) (now : Millis) : Peer :=
  { p with
    trust := Trust.after p.trust true
    lastSeen := max p.lastSeen now
    failures := 0
    version := p.version.join acked }.refresh now

def fail (p : Peer) (now : Millis) : Peer :=
  { p with
    trust := Trust.after p.trust false
    failures := p.failures + 1 }.refresh now

/-- Nothing is lost by forgetting the peer: it is quarantined, or offline with failures, and has
been silent for longer than `maxAge`. -/
def isStale (p : Peer) (maxAge : Nat) (now : Millis) : Bool :=
  (match p.standing with
    | .quarantined => true
    | .offline => 0 < p.failures
    | .active | .suspicious => false) && maxAge < elapsed p.lastSeen now

end Peer

end ThreatGossip

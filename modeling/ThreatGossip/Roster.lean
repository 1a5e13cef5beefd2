import ThreatGossip.Peer
import ThreatGossip.Text.Blank
/-!
The peers that a node knows, by id. A node is never its own peer, and a peer always has an id and an
address that is not blank.
-/
namespace ThreatGossip

inductive PeerError where
  | selfRegistration
  | unknownPeer (id : NodeId)
  | emptyId
  | noAddress (id : NodeId)
  deriving DecidableEq, Repr

namespace PeerError

def message : PeerError → String
  | selfRegistration => "Cannot add self as peer"
  | unknownPeer id => "Unknown peer: " ++ id
  | emptyId => "Invalid peer: empty peer id"
  | noAddress id => "Invalid peer: peer " ++ id ++ " has no address"

end PeerError

structure Roster where
  owner : NodeId
  peers : SortedMap NodeId Peer

/-- How many peers there are in all and of each standing. -/
structure Census where
  total : Nat
  active : Nat
  suspicious : Nat
  quarantined : Nat
  offline : Nat
  deriving DecidableEq

namespace Roster

def empty (owner : NodeId) : Roster := ⟨owner, .empty⟩

def get? (r : Roster) (id : NodeId) : Option Peer := r.peers.get? id

def contains (r : Roster) (id : NodeId) : Bool := r.peers.contains id

def version? (r : Roster) (id : NodeId) : Option Clock := (r.get? id).map (·.version)

def newPeer (i : Introduction) (now : Millis) : Peer :=
  { id := i.id, address := i.address, publicKey := i.publicKey, lastSeen := now,
    standing := .active, trust := Trust.ofGiven i.trust, version := .empty, failures := 0 }

/-- Registers a peer. One that is known already takes the new address and key, and keeps the rest. -/
def register (r : Roster) (i : Introduction) (now : Millis) : Except PeerError Roster :=
  if i.id = r.owner then .error .selfRegistration
  else if i.id = "" then .error .emptyId
  else if Text.allBlank i.address then .error (.noAddress i.id)
  else
    let peer := match r.get? i.id with
      | some known => { known with address := i.address, publicKey := i.publicKey }
      | none => (newPeer i now).refresh now
    .ok { r with peers := r.peers.insert i.id peer }

def remove (r : Roster) (id : NodeId) : Roster := { r with peers := r.peers.erase id }

def adjust (r : Roster) (id : NodeId) (f : Peer → Peer) : Roster :=
  match r.get? id with
  | some p => { r with peers := r.peers.insert id (f p) }
  | none => r

/-- Changes the entry of one peer, with the change of its standing. -/
def adjustReporting (r : Roster) (id : NodeId) (f : Peer → Peer) :
    Roster × Option StandingChange :=
  (r.adjust id f, (r.get? id).bind fun p => p.changeFrom (f p))

def touch (r : Roster) (id : NodeId) (now : Millis) : Except PeerError Roster :=
  if r.contains id then .ok (r.adjust id (·.touch now)) else .error (.unknownPeer id)

def learn (r : Roster) (id : NodeId) (version : Clock) : Roster := r.adjust id (·.learn version)

def recordSuccess (r : Roster) (id : NodeId) (acked : Clock) (now : Millis) :
    Roster × Option StandingChange :=
  r.adjustReporting id (·.succeed acked now)

def recordFailure (r : Roster) (id : NodeId) (now : Millis) : Roster × Option StandingChange :=
  r.adjustReporting id (·.fail now)

def refreshAll (r : Roster) (now : Millis) : Roster :=
  { r with peers := r.peers.mapValues fun _ p => p.refresh now }

/-- The standings that `refreshAll` changes, by peer. -/
def refreshChanges (r : Roster) (now : Millis) : List StandingChange :=
  r.peers.values.filterMap fun p => p.changeFrom (p.refresh now)

def list (r : Roster) : List Peer := r.peers.values

def selectable (r : Roster) : List Peer := r.list.filter (·.standing.selectable)

def stale (r : Roster) (maxAge : Nat) (now : Millis) : List NodeId :=
  (r.list.filter (·.isStale maxAge now)).map (·.id)

def evict (r : Roster) (maxAge : Nat) (now : Millis) : Roster :=
  { r with peers := r.peers.filter fun _ p => !p.isStale maxAge now }

def census (r : Roster) : Census :=
  let count s := (r.list.filter (·.standing == s)).length
  ⟨r.list.length, count .active, count .suspicious, count .quarantined, count .offline⟩

end Roster

end ThreatGossip

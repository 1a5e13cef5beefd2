import Mathlib.Data.Set.Insert
import Mathlib.Logic.Relation
import ThreatGossip.Node
import ThreatGossip.Proofs.Histories
import ThreatGossip.Proofs.Lattices
import ThreatGossip.Proofs.Rosters
/-!
Fleets of nodes. Nodes write, build messages, take in any message that was ever sent, and book any
acknowledgment that was ever given, in any order and as often as they like; whatever is not taken in
is lost. A full state may be older than the version that is sent with it.
-/
namespace ThreatGossip

open Json (Document)

/-- A message, with the state of its sender that it speaks of. -/
structure Letter where
  message : Message
  origin : Node

/-- All nodes, every state that any of them has been in, all writes of threats, the newest first,
and every message and acknowledgment that there ever was, these with the node that gave them. -/
structure Fleet where
  nodes : SortedMap NodeId Node
  past : Set Node
  log : List (Write Document)
  sent : Set Letter
  answers : Set (NodeId × Acknowledgment)

namespace Fleet

/-- New nodes of the given names. -/
def start (ids : List NodeId) : Fleet :=
  let nodes := (SortedSet.ofList ids).mapValues fun id _ => Node.empty id
  ⟨nodes, {n | nodes.get? n.id = some n}, [], ∅, ∅⟩

/-- The node is in this state now. -/
def Has (s : Fleet) (n : Node) : Prop := s.nodes.get? n.id = some n

/-- What the node of a name knows of the threats. -/
def version (s : Fleet) (id : NodeId) : Clock := (s.nodes.get? id).elim .empty Node.version

/-- A node passes into a new state. -/
def become (s : Fleet) (n : Node) : Fleet :=
  { s with nodes := s.nodes.insert n.id n, past := insert n s.past }

/-- A node passes into a new state by a write of its own. -/
def record (s : Fleet) (n : Node) (w : Write Document) : Fleet :=
  { s.become n with log := w :: s.log }

def post (s : Fleet) (l : Letter) : Fleet := { s with sent := insert l s.sent }

/-- A node passes into a new state by taking a message in, and answers it; a reply speaks of
`origin`. -/
def answer (s : Fleet) (n : Node) (ack : Acknowledgment) (origin : Node) : Fleet :=
  { s.become n with
    sent := s.sent ∪ {l | ack.reply = some l.message ∧ l.origin = origin}
    answers := insert (n.id, ack) s.answers }

/-- A local write, to the threats, the rules or the metrics. -/
inductive Local (s : Fleet) : Fleet → Prop
  | put {n n' : Node} (key : String) (d : Document) (now : Millis)
      {r : Register (Option Document)} : s.Has n → n.putThreat? key d now = some n' →
      n'.threats.register? key = some r → Local s (s.record n' ⟨key, r⟩)
  | delete {n n' : Node} (key : String) (now : Millis) {r : Register (Option Document)} :
      s.Has n → n.deleteThreat? key now = some n' → n'.threats.register? key = some r →
      Local s (s.record n' ⟨key, r⟩)
  | addRule {n : Node} (rule tag : String) : s.Has n → Local s (s.become (n.addRule rule tag))
  | removeRule {n : Node} (rule : String) : s.Has n → Local s (s.become (n.removeRule rule))
  | addMetric {n : Node} (amount : UInt64) : s.Has n → Local s (s.become (n.addMetric amount))
  | subtractMetric {n : Node} (amount : UInt64) :
      s.Has n → Local s (s.become (n.subtractMetric amount))

/-- Anything else: upkeep of a roster, the sending of a message, and the taking in of a message or
an acknowledgment. A full state is that of some earlier time, whatever happened since. -/
inductive Traffic (s : Fleet) : Fleet → Prop
  | addPeer {n n' : Node} (i : Introduction) (now : Millis) :
      s.Has n → n.addPeer i now = .ok n' → Traffic s (s.become n')
  | removePeer {n : Node} (id : NodeId) : s.Has n → Traffic s (s.become (n.removePeer id))
  | refresh {n : Node} (now : Millis) :
      s.Has n → Traffic s (s.become { n with peers := n.peers.refreshAll now })
  | evict {n : Node} (maxAge : Nat) (now : Millis) :
      s.Has n → Traffic s (s.become { n with peers := n.peers.evict maxAge now })
  | fail {n : Node} (peer : NodeId) (now : Millis) :
      s.Has n → Traffic s (s.become (n.recordFailure peer now))
  | delta {n : Node} {peer : NodeId} {m : Message} (now : Millis) :
      s.Has n → n.deltaMessage peer now = .ok m → Traffic s (s.post ⟨m, n⟩)
  | full {n old : Node} (peer : NodeId) (now : Millis) : s.Has n → old ∈ s.past → old.id = n.id →
      Traffic s (s.post ⟨n.messageTo peer (.full old.fullState) now, old⟩)
  | request {n : Node} (peer : NodeId) (now : Millis) :
      s.Has n → Traffic s (s.post ⟨n.requestMessage peer now, n⟩)
  | deliver {n next : Node} {l : Letter} {ack : Acknowledgment} (now : Millis) :
      s.Has n → l ∈ s.sent → n.handle l.message now = .ok (next, ack) →
      Traffic s (s.answer next ack next)
  | respond {n old heard : Node} {l : Letter} {ack : Acknowledgment} (now : Millis) :
      s.Has n → l ∈ s.sent → l.message.payload = .request →
      n.handle l.message now = .ok (heard, ack) → old ∈ s.past → old.id = n.id →
      Traffic s (s.answer heard
        { ack with reply := some (heard.messageTo l.message.sender (.response old.fullState) now) }
        old)
  | book {n : Node} {peer : NodeId} {ack : Acknowledgment} (now : Millis) :
      s.Has n → (peer, ack) ∈ s.answers →
      Traffic s (s.become (n.recordSuccess peer ack.version now))

/-- The fleets that new nodes of the given names can come to be. -/
inductive Reachable (ids : List NodeId) : Fleet → Prop
  | start : Reachable ids (start ids)
  | write {s t : Fleet} : Reachable ids s → Local s t → Reachable ids t
  | gossip {s t : Fleet} : Reachable ids s → Traffic s t → Reachable ids t

end Fleet

end ThreatGossip

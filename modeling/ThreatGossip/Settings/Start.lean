import ThreatGossip.Gossip
import ThreatGossip.Settings.Basic
/-!
What settings start: a node that knows its bootstrap peers, and the policy by which it gossips. A
bootstrap peer that the node refuses is left out, and the node starts without it.
-/
namespace ThreatGossip

structure Start where
  node : Node
  /-- The peers to pull full states from, in order. -/
  sources : List NodeId
  /-- The bootstrap peers left out, and why. -/
  skipped : List (BootstrapPeer × PeerError)

namespace Start

def alone (id : NodeId) : Start := ⟨.empty id, [], []⟩

def join (s : Start) (p : BootstrapPeer) (now : Millis) : Start :=
  match s.node.addPeer p.introduction now with
  | .ok node => { s with node, sources := s.sources ++ [p.id] }
  | .error e => { s with skipped := s.skipped ++ [(p, e)] }

end Start

namespace Settings

/-- All times in milliseconds; an eviction age of zero means never. -/
def policy (s : Settings) : Policy where
  interval := s.intervalSeconds * 1000
  fanout := s.fanout
  timeout := s.timeoutMillis
  evictionAge := if s.evictionSeconds = 0 then none else some (s.evictionSeconds * 1000)

/-- The node under the id in force, its bootstrap peers registered in order. -/
def start (s : Settings) (fallback : String) (now : Millis) : Start :=
  s.bootstrap.foldl (fun start p => start.join p now) (.alone (s.nodeIdOr fallback))

end Settings

end ThreatGossip

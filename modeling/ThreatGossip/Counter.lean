import ThreatGossip.Clock
/-!
Replicated counters. A grow-only counter has one slot per node and adds only to its owner's; a
counter that goes both ways is a pair of them. Totals stop at the ends of their ranges.
-/
namespace ThreatGossip

structure GrowCounter where
  owner : NodeId
  counts : SortedMap NodeId UInt64
  deriving DecidableEq

namespace GrowCounter

def empty (owner : NodeId) : GrowCounter := ⟨owner, .empty⟩

def slot (c : GrowCounter) (n : NodeId) : UInt64 := (c.counts.get? n).getD 0

def add (c : GrowCounter) (n : UInt64) : GrowCounter :=
  { c with counts := c.counts.insert c.owner (satAdd (c.slot c.owner) n) }

def total (c : GrowCounter) : UInt64 := c.counts.values.foldl satAdd 0

def merge (a b : GrowCounter) : GrowCounter :=
  { a with counts := a.counts.unionWith max b.counts }

/-- The slots above zero, which are what two replicas must share. -/
def counted (c : GrowCounter) : List (NodeId × UInt64) := c.counts.entries.filter (0 < ·.2)

def sameState (a b : GrowCounter) : Bool := a.counted == b.counted

end GrowCounter

structure Counter where
  up : GrowCounter
  down : GrowCounter
  deriving DecidableEq

namespace Counter

def empty (owner : NodeId) : Counter := ⟨.empty owner, .empty owner⟩

def add (c : Counter) (n : UInt64) : Counter := { c with up := c.up.add n }

def subtract (c : Counter) (n : UInt64) : Counter := { c with down := c.down.add n }

/-- Additions less subtractions, cut off at the ends of the signed range. -/
def value (c : Counter) : Int :=
  max minSigned (min maxSigned ((c.up.total.toNat : Int) - c.down.total.toNat))

def merge (a b : Counter) : Counter := ⟨a.up.merge b.up, a.down.merge b.down⟩

def sameState (a b : Counter) : Bool := a.up.sameState b.up && a.down.sameState b.down

end Counter

end ThreatGossip

import ThreatGossip.Count
import ThreatGossip.SortedMap.Basic
/-!
Vector clocks: how many events of each node are known. A slot that stands at zero is kept and
written, but every comparison reads it as absent.
-/
namespace ThreatGossip

/-- The name of a node; nodes are ordered by the code points of their names. -/
abbrev NodeId := String

/-- How many events of each node are known. -/
structure Clock where
  slots : SortedMap NodeId UInt64
  deriving DecidableEq, Inhabited

namespace Clock

def empty : Clock := ⟨.empty⟩

def ofList (slots : List (NodeId × UInt64)) : Clock := ⟨.ofList slots⟩

def get (c : Clock) (n : NodeId) : UInt64 := (c.slots.get? n).getD 0

/-- One more event of `n`; nothing when its slot is at the greatest count. -/
def tick? (c : Clock) (n : NodeId) : Option Clock :=
  if c.get n = maxCount then none else some ⟨c.slots.insert n (c.get n + 1)⟩

def join (a b : Clock) : Clock := ⟨a.slots.unionWith max b.slots⟩

/-- `a` knows every event that `b` knows. -/
def descends (a b : Clock) : Bool := b.slots.entries.all fun e => e.2 ≤ a.get e.1

/-- `b` knows all that `a` knows, and more. -/
def before (a b : Clock) : Bool := b.descends a && !a.descends b

def concurrent (a b : Clock) : Bool := !a.before b && !b.before a

def alike (a b : Clock) : Bool := a.descends b && b.descends a

def counted (c : Clock) : List (NodeId × UInt64) := c.slots.entries.filter (0 < ·.2)

/-- The text `(a->1, b->2)` of the slots above zero. -/
def text (c : Clock) : String :=
  "(" ++ ", ".intercalate (c.counted.map fun e => e.1 ++ "->" ++ toString e.2.toNat) ++ ")"

end Clock

end ThreatGossip

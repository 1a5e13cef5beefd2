import ThreatGossip.SortedMap.Basic
/-!
Replicated sets. A grow-only set merges by union. An observed-remove set tags each insertion and
removes the tags it has seen, so an insertion that a removal did not see survives it.
-/
namespace ThreatGossip

structure GrowSet where
  items : SortedSet String
  deriving DecidableEq

namespace GrowSet

def empty : GrowSet := ⟨.empty⟩

def insert (s : GrowSet) (item : String) : GrowSet := ⟨s.items.add item⟩

def contains (s : GrowSet) (item : String) : Bool := s.items.contains item

def toList (s : GrowSet) : List String := s.items.keys

def merge (a b : GrowSet) : GrowSet := ⟨a.items.union b.items⟩

end GrowSet

/-- Insertion tags and removed tags, per item. -/
structure ObservedSet (α : Type) [Ord α] where
  added : SortedMap α (SortedSet String)
  removed : SortedMap α (SortedSet String)
  deriving DecidableEq

namespace ObservedSet

variable {α : Type} [Ord α]

def empty : ObservedSet α := ⟨.empty, .empty⟩

variable [Std.TransOrd α]

def tagsIn (side : SortedMap α (SortedSet String)) (item : α) : SortedSet String :=
  (side.get? item).getD .empty

def insert (s : ObservedSet α) (item : α) (tag : String) : ObservedSet α :=
  { s with added := s.added.insert item ((tagsIn s.added item).add tag) }

/-- Some insertion tag of the item has not been removed. -/
def contains (s : ObservedSet α) (item : α) : Bool :=
  (tagsIn s.added item).keys.any fun tag => !(tagsIn s.removed item).contains tag

/-- Removes every insertion of the item seen so far. -/
def erase (s : ObservedSet α) (item : α) : ObservedSet α :=
  match s.added.get? item with
  | none => s
  | some tags => { s with removed := s.removed.insert item ((tagsIn s.removed item).union tags) }

def toList (s : ObservedSet α) : List α := s.added.keys.filter s.contains

def merge (a b : ObservedSet α) : ObservedSet α :=
  ⟨a.added.unionWith SortedSet.union b.added, a.removed.unionWith SortedSet.union b.removed⟩

end ObservedSet

end ThreatGossip

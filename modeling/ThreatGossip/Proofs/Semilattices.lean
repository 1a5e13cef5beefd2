import Mathlib.Data.Set.BooleanAlgebra
import Mathlib.Order.ConditionallyCompleteLattice.Basic
import Mathlib.Order.Lattice.Nat
import ThreatGossip.Proofs.AddWins
import ThreatGossip.Proofs.Tallies
/-!
Merging as a join, of whatever a peer may send. Values are seen through a lattice: a set through its
members, an observed-remove set through the tags of each item, a counter through the slots of each
node. Merged values show the least upper bound of what each of them shows, so neither the order nor
the number of merges matters, and a removal stays as long as no new insertion is merged in.
-/
namespace ThreatGossip

/-- Merging is a join. The laws hold up to being the `same`, which nothing that is shown and no
further merge can tell from being equal. -/
structure IsMerge {β L : Type} [SemilatticeSup L] (view : β → L) (same : β → β → Prop)
    (merge : β → β → β) : Prop where
  equivalence : Equivalence same
  isLUB : ∀ a b, IsLUB {view a, view b} (view (merge a b))
  comm : ∀ a b, same (merge a b) (merge b a)
  assoc : ∀ a b c, same (merge (merge a b) c) (merge a (merge b c))
  idem : ∀ a, same (merge a a) a
  shown : ∀ a b, same a b → view a = view b
  congr : ∀ a a' b b', same a a' → same b b' → same (merge a b) (merge a' b')

/-- Where values are the same that show the same, the lattice gives all the laws. -/
theorem isMerge_of_view {β L : Type} [SemilatticeSup L] {view : β → L} {same : β → β → Prop}
    {merge : β → β → β} (merged : ∀ a b, view (merge a b) = view a ⊔ view b)
    (decides : ∀ a b, same a b ↔ view a = view b) : IsMerge view same merge := by
  constructor
  · have reading : same = fun a b => view a = view b := by
      funext a b
      exact propext (decides a b)
    rw [reading]
    exact eq_equivalence.comap view
  · intro a b
    rw [merged]
    exact isLUB_pair
  · intro a b
    rw [decides, merged, merged, sup_comm]
  · intro a b c
    rw [decides, merged, merged, merged, merged, sup_assoc]
  · intro a
    rw [decides, merged, sup_idem]
  · intro a b
    exact (decides a b).mp
  · intro a a' b b' left right
    rw [decides] at left right ⊢
    rw [merged, merged, left, right]

namespace SortedSet

variable {κ : Type} [Ord κ]

def members (s : SortedSet κ) : Set κ := {k | s.contains k = true}

variable [Std.TransOrd κ] [Std.LawfulEqOrd κ] [DecidableEq κ]

theorem members_union (a b : SortedSet κ) : (a.union b).members = a.members ⊔ b.members := by
  ext k
  exact contains_union

theorem eq_iff_members (a b : SortedSet κ) : a = b ↔ a.members = b.members := by
  constructor
  · exact congrArg members
  · intro same
    apply SortedMap.eq_of_get?
    intro k
    have there : a.contains k = b.contains k := Bool.eq_iff_iff.mpr (Set.ext_iff.mp same k)
    unfold SortedMap.contains at there
    cases left : a.get? k <;> cases right : b.get? k <;> simp_all

end SortedSet

namespace GrowSet

def members (s : GrowSet) : Set String := {item | s.contains item = true}

theorem members_merge (a b : GrowSet) : (a.merge b).members = a.members ⊔ b.members :=
  SortedSet.members_union a.items b.items

theorem eq_iff_members (a b : GrowSet) : a = b ↔ a.members = b.members := by
  constructor
  · exact congrArg members
  · intro same
    exact congrArg GrowSet.mk ((SortedSet.eq_iff_members a.items b.items).mpr same)

end GrowSet

namespace ObservedSet

variable {α : Type} [Ord α] {s o : ObservedSet α} {item : α} {known : Set String}

/-- The tags that each item was inserted with, and those that were removed of it. -/
def tags (s : ObservedSet α) (item : α) : Set String × Set String :=
  ({tag | Bears s.added item tag}, {tag | Bears s.removed item tag})

/-- The item bears no tags but those given, and these are all removed. -/
structure Retired (s : ObservedSet α) (item : α) (known : Set String) : Prop where
  added : (s.tags item).1 ⊆ known
  removed : known ⊆ (s.tags item).2

theorem Retired.contains_eq_false (h : s.Retired item known) : s.contains item = false := by
  rw [← Bool.not_eq_true, contains_iff]
  rintro ⟨tag, added, kept⟩
  exact kept (h.removed (h.added added))

variable [Std.TransOrd α] [Std.LawfulEqOrd α] [DecidableEq α]

theorem tags_merge (a b : ObservedSet α) : (a.merge b).tags = a.tags ⊔ b.tags := by
  funext item
  apply Prod.ext
  · ext tag
    exact bears_unionWith
  · ext tag
    exact bears_unionWith

/-- Sets with their tags by inclusion, in which items without tags count as well. -/
instance : SemilatticeSup (ObservedSet α) where
  sup := merge
  le_sup_left := le_merge_left
  le_sup_right := le_merge_right
  sup_le _ _ _ := merge_le

/-- Sets may differ though their tags do not, for an item may be listed without any; so the laws
hold of all that is listed, and the bound is one of tags. -/
theorem isMerge : IsMerge (tags : ObservedSet α → α → Set String × Set String) Eq merge := by
  constructor
  · exact eq_equivalence
  · intro a b
    rw [tags_merge]
    exact isLUB_pair
  · exact sup_comm
  · exact sup_assoc
  · exact sup_idem
  · intro a b same
    rw [same]
  · rintro a _ b _ rfl rfl
    rfl

theorem retired_erase (s : ObservedSet α) (item : α) :
    (s.erase item).Retired item (s.tags item).1 := by
  constructor
  · intro tag added
    change Bears (s.erase item).added item tag at added
    rw [added_erase] at added
    exact added
  · intro tag added
    exact bears_erase.mpr (.inl ⟨rfl, added⟩)

theorem Retired.merge (h : s.Retired item known) (seen : (o.tags item).1 ⊆ known) :
    (s.merge o).Retired item known := by
  constructor
  · rw [tags_merge]
    exact Set.union_subset h.added seen
  · rw [tags_merge]
    exact h.removed.trans Set.subset_union_left

theorem Retired.foldl_merge {os : List (ObservedSet α)} (h : s.Retired item known)
    (seen : ∀ o ∈ os, (o.tags item).1 ⊆ known) :
    (os.foldl ObservedSet.merge s).Retired item known := by
  induction os generalizing s with
  | nil => exact h
  | cons o rest ih =>
      obtain ⟨first, others⟩ := List.forall_mem_cons.mp seen
      exact ih (h.merge first) others

end ObservedSet

namespace Counter

/-- What is counted of each node on either side. -/
def slots (c : Counter) (id : NodeId) : Nat × Nat := ((c.up.slot id).toNat, (c.down.slot id).toNat)

theorem slots_merge (a b : Counter) : (a.merge b).slots = a.slots ⊔ b.slots := by
  funext id
  exact Prod.ext (GrowCounter.toNat_slot_merge a.up b.up id)
    (GrowCounter.toNat_slot_merge a.down b.down id)

theorem sameState_iff_slots (a b : Counter) : a.sameState b = true ↔ a.slots = b.slots := by
  rw [sameState, Bool.and_eq_true, GrowCounter.sameState_iff, GrowCounter.sameState_iff,
    funext_iff, ← forall_and]
  simp only [slots, Prod.mk.injEq, UInt64.toNat_inj]

end Counter

/-- Merging is a join for sets, for observed-remove sets and for counters, whatever they hold and
whoever owns them. What an observed-remove set has removed no merge brings back, unless with an
insertion that was not known; and a counter keeps its owner. -/
theorem merges_are_joins :
    (∀ (κ : Type) [Ord κ] [Std.TransOrd κ] [Std.LawfulEqOrd κ] [DecidableEq κ],
      IsMerge (SortedSet.members : SortedSet κ → Set κ) Eq SortedSet.union) ∧
    IsMerge GrowSet.members Eq GrowSet.merge ∧
    (∀ (α : Type) [Ord α] [Std.TransOrd α] [Std.LawfulEqOrd α] [DecidableEq α],
      IsMerge (ObservedSet.tags : ObservedSet α → α → Set String × Set String) Eq
        ObservedSet.merge ∧
      ∀ (s : ObservedSet α) (item : α) (os : List (ObservedSet α)),
        (∀ o ∈ os, (o.tags item).1 ⊆ (s.tags item).1) →
          (os.foldl ObservedSet.merge (s.erase item)).contains item = false) ∧
    IsMerge Counter.slots (fun a b => a.sameState b = true) Counter.merge ∧
    ∀ a b : Counter, (a.merge b).up.owner = a.up.owner ∧ (a.merge b).down.owner = a.down.owner := by
  refine ⟨fun κ _ _ _ _ => ?_, ?_, fun α _ _ _ _ => ⟨ObservedSet.isMerge, ?_⟩, ?_, ?_⟩
  · exact isMerge_of_view SortedSet.members_union SortedSet.eq_iff_members
  · exact isMerge_of_view GrowSet.members_merge GrowSet.eq_iff_members
  · intro s item os seen
    exact ((s.retired_erase item).foldl_merge seen).contains_eq_false
  · exact isMerge_of_view Counter.slots_merge Counter.sameState_iff_slots
  · exact fun a b => ⟨rfl, rfl⟩

/-- A set that lists one item without a tag and has removed another that it never held. -/
def ObservedSet.odd : ObservedSet String :=
  ⟨.ofList [("q", .empty), ("r", .ofList ["1", "2"])],
    .ofList [("p", .ofList ["9"]), ("r", .empty)]⟩

/-- A counter with slots at both ends of their range, the sides of which have two owners. -/
def Counter.odd : Counter :=
  ⟨⟨"a", .ofList [("a", 0), ("b", maxCount)]⟩, ⟨"z", .ofList [("", 0), ("b", 7)]⟩⟩

/-- What is removed from an odd set stays removed when the set itself is merged in again, and odd
counters merge either way. -/
theorem odd_values_merge :
    (∀ o ∈ [ObservedSet.odd, ObservedSet.empty.insert "r" "2"],
      (o.tags "r").1 ⊆ (ObservedSet.odd.tags "r").1) ∧
    ([ObservedSet.odd, ObservedSet.empty.insert "r" "2"].foldl ObservedSet.merge
      (ObservedSet.odd.erase "r")).contains "r" = false ∧
    (Counter.odd.merge (.empty "c")).sameState ((Counter.empty "c").merge .odd) = true ∧
    Counter.odd.merge (.empty "c") ≠ (Counter.empty "c").merge .odd := by
  have seen : ∀ o ∈ [ObservedSet.odd, ObservedSet.empty.insert "r" "2"],
      (o.tags "r").1 ⊆ (ObservedSet.odd.tags "r").1 := by
    intro o member
    have listed : ∀ tag ∈ (ObservedSet.tagsIn o.added "r").keys,
        ObservedSet.Bears ObservedSet.odd.added "r" tag := by
      unfold ObservedSet.Bears
      revert o
      decide
    exact fun tag borne => listed tag (SortedMap.mem_keys_iff.mpr borne)
  refine ⟨seen, (merges_are_joins.2.2.1 String).2 _ _ _ seen,
    merges_are_joins.2.2.2.1.comm _ _, ?_⟩
  decide

end ThreatGossip

import Mathlib.Order.Defs.PartialOrder
import ThreatGossip.Counter
import ThreatGossip.ObservedSet
import ThreatGossip.Proofs.Clocks
/-!
Merging as a least upper bound. Maps are ordered by what they hold under each key; sets and counters
inherit the order, their merges are joins, and their local operations only go up.
-/
namespace ThreatGossip

/-- The join of two values is their least upper bound in a partial order. -/
structure IsJoin {β : Type} (le : β → β → Prop) (join : β → β → β) : Prop where
  refl : ∀ x, le x x
  trans : ∀ {x y z}, le x y → le y z → le x z
  antisymm : ∀ {x y}, le x y → le y x → x = y
  left : ∀ x y, le x (join x y)
  right : ∀ x y, le y (join x y)
  least : ∀ {x y z}, le x z → le y z → le (join x y) z

theorem IsJoin.join_eq_left {β : Type} {le : β → β → Prop} {join : β → β → β} (h : IsJoin le join)
    {x y : β} (below : le y x) : join x y = x :=
  h.antisymm (h.least (h.refl x) below) (h.left x y)

theorem isJoin_unit : IsJoin (fun _ _ : Unit => True) (fun _ _ => ()) := by
  constructor <;> intros <;> trivial

theorem isJoin_max : IsJoin (fun x y : UInt64 => x ≤ y) max := by
  constructor
  · exact fun x => UInt64.le_refl x
  · exact UInt64.le_trans
  · exact UInt64.le_antisymm
  · intro x y
    rw [UInt64.le_iff_toNat_le, toNat_max]
    exact Nat.le_max_left _ _
  · intro x y
    rw [UInt64.le_iff_toNat_le, toNat_max]
    exact Nat.le_max_right _ _
  · intro x y z left right
    rw [UInt64.le_iff_toNat_le] at *
    rw [toNat_max]
    exact Nat.max_le.mpr ⟨left, right⟩

namespace SortedMap

variable {κ β : Type} [Ord κ] {le : β → β → Prop} {join : β → β → β}

/-- Whatever the first map holds under a key, the second holds no less there. -/
def Below (le : β → β → Prop) (a b : SortedMap κ β) : Prop :=
  ∀ k x, a.get? k = some x → ∃ y, b.get? k = some y ∧ le x y

variable [Std.TransOrd κ] [Std.LawfulEqOrd κ] [DecidableEq κ]

/-- Maps that join value by value are joined. -/
theorem isJoin_unionWith (h : IsJoin le join) :
    IsJoin (Below le (κ := κ)) (unionWith join) := by
  constructor
  · exact fun a k x found => ⟨x, found, h.refl x⟩
  · intro a b c first second k x found
    obtain ⟨y, found, low⟩ := first k x found
    obtain ⟨z, found, high⟩ := second k y found
    exact ⟨z, found, h.trans low high⟩
  · intro a b first second
    apply eq_of_get?
    intro k
    cases left : a.get? k with
    | none =>
        cases right : b.get? k with
        | none => rfl
        | some y =>
            obtain ⟨x, found, -⟩ := second k y right
            rw [left] at found
            contradiction
    | some x =>
        obtain ⟨y, right, low⟩ := first k x left
        obtain ⟨x', found, high⟩ := second k y right
        obtain rfl := Option.some.inj (left.symm.trans found)
        rw [right, h.antisymm low high]
  · intro a b k x found
    rw [get?_unionWith, found]
    cases b.get? k with
    | none => exact ⟨x, rfl, h.refl x⟩
    | some y => exact ⟨join x y, rfl, h.left x y⟩
  · intro a b k y found
    rw [get?_unionWith, found]
    cases a.get? k with
    | none => exact ⟨y, rfl, h.refl y⟩
    | some x => exact ⟨join x y, rfl, h.right x y⟩
  · intro a b c first second k z found
    rw [get?_unionWith] at found
    cases left : a.get? k with
    | none =>
        rw [left] at found
        exact second k z found
    | some x =>
        obtain ⟨u, bound, low⟩ := first k x left
        cases right : b.get? k with
        | none =>
            rw [left, right] at found
            obtain rfl := Option.some.inj found
            exact ⟨u, bound, low⟩
        | some y =>
            rw [left, right] at found
            obtain rfl := Option.some.inj found
            obtain ⟨v, bound', high⟩ := second k y right
            obtain rfl := Option.some.inj (bound.symm.trans bound')
            exact ⟨u, bound, h.least low high⟩

theorem below_insert (h : IsJoin le join) {m : SortedMap κ β} {k : κ} {v : β}
    (above : ∀ x, m.get? k = some x → le x v) : Below le m (m.insert k v) := by
  intro l x found
  rw [get?_insert]
  by_cases same : l = k
  · rw [if_pos same]
    exact ⟨v, rfl, above x (same ▸ found)⟩
  · rw [if_neg same]
    exact ⟨x, found, h.refl x⟩

end SortedMap

section Sets

variable {α : Type} [Ord α] [Std.TransOrd α] [Std.LawfulEqOrd α] [DecidableEq α]

/-- Sets of tags by inclusion. -/
theorem isJoin_union : IsJoin (SortedMap.Below (fun _ _ : Unit => True) (κ := α)) SortedSet.union :=
  SortedMap.isJoin_unionWith isJoin_unit

/-- Tags by item. -/
abbrev TagsBelow : SortedMap α (SortedSet String) → SortedMap α (SortedSet String) → Prop :=
  SortedMap.Below (SortedMap.Below fun _ _ => True)

theorem isJoin_tags : IsJoin (TagsBelow (α := α)) (SortedMap.unionWith SortedSet.union) :=
  SortedMap.isJoin_unionWith isJoin_union

namespace ObservedSet

/-- A set is below another when it holds no tag on either side that the other does not. -/
instance : PartialOrder (ObservedSet α) where
  le a b := TagsBelow a.added b.added ∧ TagsBelow a.removed b.removed
  le_refl a := ⟨isJoin_tags.refl _, isJoin_tags.refl _⟩
  le_trans _ _ _ first second :=
    ⟨isJoin_tags.trans first.1 second.1, isJoin_tags.trans first.2 second.2⟩
  le_antisymm a b first second := by
    obtain ⟨added, removed⟩ := a
    obtain ⟨added', removed'⟩ := b
    have same : added = added' := isJoin_tags.antisymm first.1 second.1
    have gone : removed = removed' := isJoin_tags.antisymm first.2 second.2
    rw [same, gone]

variable {a b c : ObservedSet α}

theorem le_merge_left (a b : ObservedSet α) : a ≤ a.merge b :=
  ⟨isJoin_tags.left _ _, isJoin_tags.left _ _⟩

theorem le_merge_right (a b : ObservedSet α) : b ≤ a.merge b :=
  ⟨isJoin_tags.right _ _, isJoin_tags.right _ _⟩

theorem merge_le (left : a ≤ c) (right : b ≤ c) : a.merge b ≤ c :=
  ⟨isJoin_tags.least left.1 right.1, isJoin_tags.least left.2 right.2⟩

theorem merge_eq_left (below : b ≤ a) : a.merge b = a :=
  le_antisymm (merge_le (le_refl a) below) (le_merge_left a b)

theorem le_insert (s : ObservedSet α) (item : α) (tag : String) : s ≤ s.insert item tag := by
  refine ⟨SortedMap.below_insert isJoin_union fun tags found => ?_, isJoin_tags.refl _⟩
  rw [tagsIn, found]
  exact SortedMap.below_insert isJoin_unit fun _ _ => trivial

theorem le_erase (s : ObservedSet α) (item : α) : s ≤ s.erase item := by
  unfold erase
  split
  next => exact le_refl s
  next tags _ =>
    refine ⟨isJoin_tags.refl _, SortedMap.below_insert isJoin_union fun gone found => ?_⟩
    rw [tagsIn, found]
    exact isJoin_union.left gone tags

end ObservedSet

end Sets

section Counters

theorem isJoin_counts : IsJoin (SortedMap.Below (fun x y : UInt64 => x ≤ y) (κ := NodeId))
    (SortedMap.unionWith max) :=
  SortedMap.isJoin_unionWith isJoin_max

namespace GrowCounter

/-- Counters by their slots, whoever owns them. -/
instance : Preorder GrowCounter where
  le a b := SortedMap.Below (· ≤ ·) a.counts b.counts
  le_refl _ := isJoin_counts.refl _
  le_trans _ _ _ first second := isJoin_counts.trans first second

variable {a b c : GrowCounter}

theorem le_merge_left (a b : GrowCounter) : a ≤ a.merge b := isJoin_counts.left _ _

theorem le_merge_right (a b : GrowCounter) : b ≤ a.merge b := isJoin_counts.right _ _

theorem merge_le (left : a ≤ c) (right : b ≤ c) : a.merge b ≤ c := isJoin_counts.least left right

theorem le_add (c : GrowCounter) (n : UInt64) : c ≤ c.add n := by
  refine SortedMap.below_insert isJoin_max fun x found => ?_
  rw [slot, found, UInt64.le_iff_toNat_le, toNat_satAdd]
  have bound := x.toNat_lt
  have top : maxCount.toNat = 18446744073709551615 := rfl
  simp only [Option.getD_some]
  omega

theorem counts_eq (first : a ≤ b) (second : b ≤ a) : a.counts = b.counts :=
  isJoin_counts.antisymm first second

theorem merge_eq_left (below : b ≤ a) : a.merge b = a := by
  unfold merge
  rw [isJoin_counts.join_eq_left below]

end GrowCounter

namespace Counter

instance : Preorder Counter where
  le a b := a.up ≤ b.up ∧ a.down ≤ b.down
  le_refl _ := ⟨le_refl _, le_refl _⟩
  le_trans _ _ _ first second := ⟨le_trans first.1 second.1, le_trans first.2 second.2⟩

variable {a b c : Counter}

theorem le_merge_left (a b : Counter) : a ≤ a.merge b :=
  ⟨GrowCounter.le_merge_left _ _, GrowCounter.le_merge_left _ _⟩

theorem le_merge_right (a b : Counter) : b ≤ a.merge b :=
  ⟨GrowCounter.le_merge_right _ _, GrowCounter.le_merge_right _ _⟩

theorem merge_le (left : a ≤ c) (right : b ≤ c) : a.merge b ≤ c :=
  ⟨GrowCounter.merge_le left.1 right.1, GrowCounter.merge_le left.2 right.2⟩

theorem merge_eq_left (below : b ≤ a) : a.merge b = a := by
  unfold merge
  rw [GrowCounter.merge_eq_left below.1, GrowCounter.merge_eq_left below.2]

theorem le_add (c : Counter) (n : UInt64) : c ≤ c.add n := ⟨GrowCounter.le_add _ _, le_refl _⟩

theorem le_subtract (c : Counter) (n : UInt64) : c ≤ c.subtract n :=
  ⟨le_refl _, GrowCounter.le_add _ _⟩

/-- Counters below each other count alike and have one value. -/
theorem same_of_le (first : a ≤ b) (second : b ≤ a) :
    a.sameState b = true ∧ a.value = b.value := by
  have up := GrowCounter.counts_eq first.1 second.1
  have down := GrowCounter.counts_eq first.2 second.2
  constructor
  · simp [sameState, GrowCounter.sameState, GrowCounter.counted, up, down]
  · simp only [value, GrowCounter.total, up, down]

end Counter

end Counters

end ThreatGossip

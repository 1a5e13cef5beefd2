import Mathlib.Order.Defs.PartialOrder
import ThreatGossip.Clock
import ThreatGossip.SortedMap.Lemmas
/-!
The causal order of clocks. A clock is read as the plain number of events that it counts of each
node; comparisons, joins and ticks are said in these numbers, and nobody looks at slots again.
-/
namespace ThreatGossip

@[simp] theorem toNat_max (a b : UInt64) : (max a b).toNat = max a.toNat b.toNat := by
  change (if a ≤ b then b else a).toNat = _
  by_cases le : a ≤ b
  · rw [if_pos le, Nat.max_eq_right (UInt64.le_iff_toNat_le.mp le)]
  · rw [if_neg le, Nat.max_eq_left]
    rw [UInt64.le_iff_toNat_le] at le
    omega

namespace Clock

/-- How many events of `n` the clock counts. -/
def count (c : Clock) (n : NodeId) : Nat := (c.get n).toNat

/-- One clock is below another when it counts no event that the other does not. -/
instance : Preorder Clock where
  le a b := ∀ n, a.count n ≤ b.count n
  le_refl _ _ := Nat.le_refl _
  le_trans _ _ _ first second n := Nat.le_trans (first n) (second n)

theorem le_iff {a b : Clock} : a ≤ b ↔ ∀ n, a.count n ≤ b.count n := Iff.rfl

@[simp] theorem count_empty (n : NodeId) : empty.count n = 0 := rfl

theorem empty_le (c : Clock) : empty ≤ c := fun n => by simp

theorem count_slots (c : Clock) (n : NodeId) :
    c.count n = ((c.slots.get? n).map UInt64.toNat).getD 0 := by
  unfold count get
  cases c.slots.get? n <;> rfl

theorem count_of_slot {c : Clock} {n : NodeId} {v : UInt64} (slot : c.slots.get? n = some v) :
    c.count n = v.toNat := by
  rw [count_slots, slot]
  rfl

theorem descends_iff {a b : Clock} : a.descends b = true ↔ b ≤ a := by
  unfold descends
  rw [List.all_eq_true, le_iff]
  constructor
  · intro every n
    cases slot : b.slots.get? n with
    | none => simp [count_slots b, slot]
    | some v =>
        have le := every _ (SortedMap.get?_eq_some_iff.mp slot)
        rw [decide_eq_true_eq, UInt64.le_iff_toNat_le] at le
        rw [count_of_slot slot]
        exact le
  · intro le e member
    have slot : b.slots.get? e.1 = some e.2 := SortedMap.get?_eq_some_iff.mpr member
    rw [decide_eq_true_eq, UInt64.le_iff_toNat_le, ← count_of_slot slot]
    exact le e.1

instance (a b : Clock) : Decidable (a ≤ b) := decidable_of_iff _ descends_iff

theorem descends_eq_false_iff {a b : Clock} : a.descends b = false ↔ ¬b ≤ a := by
  rw [← descends_iff, Bool.not_eq_true]

theorem before_iff {a b : Clock} : a.before b = true ↔ a ≤ b ∧ ¬b ≤ a := by
  rw [before, Bool.and_eq_true, Bool.not_eq_true', descends_iff, descends_eq_false_iff]

theorem before_iff_lt {a b : Clock} : a.before b = true ↔ a < b :=
  before_iff.trans lt_iff_le_not_ge.symm

theorem alike_iff_le {a b : Clock} : a.alike b = true ↔ b ≤ a ∧ a ≤ b := by
  rw [alike, Bool.and_eq_true, descends_iff, descends_iff]

theorem alike_iff {a b : Clock} : a.alike b = true ↔ ∀ n, a.count n = b.count n := by
  rw [alike_iff_le, le_iff, le_iff]
  exact ⟨fun h n => Nat.le_antisymm (h.2 n) (h.1 n),
    fun h => ⟨fun n => Nat.le_of_eq (h n).symm, fun n => Nat.le_of_eq (h n)⟩⟩

@[simp] theorem count_join (a b : Clock) (n : NodeId) :
    (a.join b).count n = max (a.count n) (b.count n) := by
  simp only [count_slots, join, SortedMap.get?_unionWith]
  cases a.slots.get? n <;> cases b.slots.get? n <;> simp

theorem le_join_left (a b : Clock) : a ≤ a.join b := fun n => by
  rw [count_join]
  exact Nat.le_max_left _ _

theorem le_join_right (a b : Clock) : b ≤ a.join b := fun n => by
  rw [count_join]
  exact Nat.le_max_right _ _

theorem join_le {a b c : Clock} (left : a ≤ c) (right : b ≤ c) : a.join b ≤ c := by
  intro n
  rw [count_join]
  exact Nat.max_le.mpr ⟨left n, right n⟩

/-- A slot can be ticked unless it is full. -/
theorem tick?_eq_some_iff {a b : Clock} {p : NodeId} : a.tick? p = some b ↔
    a.get p ≠ maxCount ∧ b = ⟨a.slots.insert p (a.get p + 1)⟩ := by
  unfold tick?
  by_cases full : a.get p = maxCount
  · simp [full]
  · simp [full, eq_comm]

/-- A tick counts one more event of its node and nothing else. -/
theorem count_tick {a b : Clock} {p : NodeId} (tick : a.tick? p = some b) (n : NodeId) :
    b.count n = a.count n + if n = p then 1 else 0 := by
  obtain ⟨room, rfl⟩ := tick?_eq_some_iff.mp tick
  unfold count get
  rw [SortedMap.get?_insert]
  split
  next same =>
    subst same
    have lt : (a.get n).toNat + 1 < 2 ^ 64 := by
      have bound := (a.get n).toNat_lt
      have top : (a.get n).toNat ≠ maxCount.toNat := fun eq => room (UInt64.toNat_inj.mp eq)
      rw [show maxCount.toNat = 18446744073709551615 from rfl] at top
      omega
    simpa [get] using Nat.mod_eq_of_lt lt
  next => rfl

/-- A slot that is not full can be ticked. -/
theorem exists_tick {c : Clock} {n : NodeId} (room : c.get n ≠ maxCount) :
    ∃ d, c.tick? n = some d :=
  ⟨_, tick?_eq_some_iff.mpr ⟨room, rfl⟩⟩

theorem get?_slots_tick {a b : Clock} {p : NodeId} (tick : a.tick? p = some b) (n : NodeId) :
    b.slots.get? n = if n = p then some (a.get p + 1) else a.slots.get? n := by
  obtain ⟨-, rfl⟩ := tick?_eq_some_iff.mp tick
  exact SortedMap.get?_insert ..

theorem le_tick {a b : Clock} {p : NodeId} (tick : a.tick? p = some b) : a ≤ b := fun n => by
  rw [count_tick tick]
  omega

theorem lt_tick {a b : Clock} {p : NodeId} (tick : a.tick? p = some b) : a < b := by
  refine lt_iff_le_not_ge.mpr ⟨le_tick tick, fun le => ?_⟩
  have back := le p
  rw [count_tick tick, if_pos rfl] at back
  omega

/-- No slot stands at zero. Such clocks are the same when they count alike. -/
def Positive (c : Clock) : Prop := ∀ n v, c.slots.get? n = some v → 0 < v.toNat

theorem positive_empty : empty.Positive := fun _ _ slot => by simp [empty] at slot

theorem Positive.join {a b : Clock} (ha : a.Positive) (hb : b.Positive) : (a.join b).Positive := by
  intro n v slot
  simp only [Clock.join, SortedMap.get?_unionWith] at slot
  cases left : a.slots.get? n with
  | none =>
      cases right : b.slots.get? n with
      | none => simp [left, right] at slot
      | some y =>
          have eq : y = v := by simpa [left, right] using slot
          exact eq ▸ hb n y right
  | some x =>
      have pos := ha n x left
      cases right : b.slots.get? n with
      | none =>
          have eq : x = v := by simpa [left, right] using slot
          exact eq ▸ pos
      | some y =>
          have eq : max x y = v := by simpa [left, right] using slot
          rw [← eq, toNat_max]
          omega

theorem Positive.tick {a b : Clock} {p : NodeId} (ha : a.Positive) (tick : a.tick? p = some b) :
    b.Positive := by
  intro n v slot
  by_cases same : n = p
  · rw [← count_of_slot slot, count_tick tick, if_pos same]
    omega
  · rw [get?_slots_tick tick, if_neg same] at slot
    exact ha n v slot

theorem Positive.get?_eq_none_iff {c : Clock} (hc : c.Positive) {n : NodeId} :
    c.slots.get? n = none ↔ c.count n = 0 := by
  rw [count_slots]
  cases slot : c.slots.get? n with
  | none => simp
  | some v => simpa using Nat.ne_of_gt (hc n v slot)

theorem Positive.eq_of_count {a b : Clock} (ha : a.Positive) (hb : b.Positive)
    (same : ∀ n, a.count n = b.count n) : a = b := by
  suffices slots : a.slots = b.slots by cases a; cases b; simp_all
  apply SortedMap.eq_of_get?
  intro n
  have counts := same n
  cases left : a.slots.get? n with
  | none =>
      rw [eq_comm, hb.get?_eq_none_iff, ← counts]
      exact ha.get?_eq_none_iff.mp left
  | some v =>
      cases right : b.slots.get? n with
      | none =>
          rw [hb.get?_eq_none_iff, ← counts, ← ha.get?_eq_none_iff, left] at right
          contradiction
      | some w =>
          rw [count_slots, count_slots, left, right] at counts
          exact congrArg some (UInt64.toNat_inj.mp counts)

end Clock

end ThreatGossip

import ThreatGossip.Proofs.Semilattices
/-!
Causality between clocks. Slots at zero aside, clocks are ordered by what they count, merging them
is a join, and a tick leads strictly upwards. Of any two clocks one is ahead, or they are the same,
or neither knows what the other does.
-/
namespace ThreatGossip.Clock

variable {a a' b b' : Clock}

section Counts

theorem alike_iff_count (a b : Clock) : a.alike b = true ↔ a.count = b.count := by
  rw [alike_iff, funext_iff]

theorem count_join_eq (a b : Clock) : (a.join b).count = a.count ⊔ b.count := by
  funext n
  exact count_join a b n

/-- Clocks are alike when they have the same slots above zero. -/
theorem alike_iff_counted : a.alike b = true ↔ a.counted = b.counted := by
  unfold counted
  rw [SortedMap.positive_entries_eq_iff, alike_iff]
  exact forall_congr' fun n => UInt64.toNat_inj

end Counts

section Comparing

/-- How one clock can stand to another. -/
inductive Comparison
  | same
  | earlier
  | later
  | apart

/-- The clock stands so to the other one, by the answers of the comparisons. -/
def Stands (a b : Clock) : Comparison → Prop
  | .same => a.alike b = true
  | .earlier => a.before b = true
  | .later => b.before a = true
  | .apart => a.alike b = false ∧ a.before b = false ∧ b.before a = false

/-- How the clock stands to the other one, by who descends from whom. -/
def comparison (a b : Clock) : Comparison :=
  match b.descends a, a.descends b with
  | true, true => .same
  | true, false => .earlier
  | false, true => .later
  | false, false => .apart

theorem stands_iff {r : Comparison} : a.Stands b r ↔ a.comparison b = r := by
  unfold comparison
  cases r <;> simp only [Stands, alike, before] <;>
    cases b.descends a <;> cases a.descends b <;> simp

/-- Clocks in their order: what the comparisons say of three of them. -/
structure Ordered (a b c : Clock) : Prop where
  alike_iff : a.alike b = true ↔ a.counted = b.counted
  descends_iff : b.descends a = true ↔ a.count ≤ b.count
  refl : a.descends a = true
  trans : c.descends b = true → b.descends a = true → c.descends a = true
  antisymm : a.descends b = true → b.descends a = true → a.alike b = true
  before_iff : a.before b = true ↔ a.count ≤ b.count ∧ ∃ n, a.count n < b.count n
  irrefl : a.before a = false
  before_trans : a.before b = true → b.before c = true → a.before c = true
  stands : ∃! r, a.Stands b r
  apart_iff : a.Stands b .apart ↔ a.alike b = false ∧ a.concurrent b = true
  join : c.descends (a.join b) = (c.descends a && c.descends b)

theorem descends_join (a b c : Clock) :
    c.descends (a.join b) = (c.descends a && c.descends b) := by
  rw [Bool.eq_iff_iff, Bool.and_eq_true, descends_iff, descends_iff, descends_iff]
  constructor
  · intro above
    exact ⟨le_trans (le_join_left a b) above, le_trans (le_join_right a b) above⟩
  · rintro ⟨left, right⟩
    exact join_le left right

theorem ordered (a b c : Clock) : Ordered a b c where
  alike_iff := alike_iff_counted
  descends_iff := Clock.descends_iff
  refl := Clock.descends_iff.mpr (le_refl a)
  trans := by
    simp only [Clock.descends_iff]
    exact fun second first => le_trans first second
  antisymm := by
    simp only [Clock.descends_iff, alike_iff_le]
    exact And.intro
  before_iff := by
    rw [← Pi.lt_def, lt_iff_le_not_ge]
    exact Clock.before_iff
  irrefl := by
    rw [← Bool.not_eq_true, before_iff_lt]
    exact lt_irrefl a
  before_trans := by
    simp only [before_iff_lt]
    exact lt_trans
  stands := ⟨a.comparison b, stands_iff.mpr rfl, fun _ stands => (stands_iff.mp stands).symm⟩
  apart_iff := by
    rw [Stands, Clock.concurrent, Bool.and_eq_true, Bool.not_eq_true', Bool.not_eq_true']
  join := descends_join a b c

end Comparing

section Replacing

/-- Clocks that give the same answers as two others. -/
structure Answers (a b a' b' : Clock) : Prop where
  get : a.get = a'.get
  alike : a.alike b = a'.alike b'
  descends : a.descends b = a'.descends b'
  before : a.before b = a'.before b'
  concurrent : a.concurrent b = a'.concurrent b'
  join : (a.join b).alike (a'.join b') = true
  tick : ∀ n, Option.Rel (fun d d' => d.alike d' = true) (a.tick? n) (a'.tick? n)

theorem get_eq (same : a.alike a' = true) : a.get = a'.get := by
  funext n
  exact UInt64.toNat_inj.mp (Clock.alike_iff.mp same n)

theorem descends_eq (left : a.alike a' = true) (right : b.alike b' = true) :
    a.descends b = a'.descends b' := by
  obtain ⟨down, up⟩ := alike_iff_le.mp left
  obtain ⟨down', up'⟩ := alike_iff_le.mp right
  rw [Bool.eq_iff_iff, descends_iff, descends_iff]
  exact ⟨fun le => le_trans down' (le_trans le up), fun le => le_trans up' (le_trans le down)⟩

/-- Clocks that are alike are ticked alike, or both cannot be. -/
theorem tick_rel (same : a.alike a' = true) (n : NodeId) :
    Option.Rel (fun d d' => d.alike d' = true) (a.tick? n) (a'.tick? n) := by
  have slot : a.get n = a'.get n := congrFun (get_eq same) n
  by_cases full : a.get n = maxCount
  · rw [tick?, if_pos full, tick?, if_pos (slot ▸ full)]
    exact .none
  · obtain ⟨d, tick⟩ := exists_tick full
    obtain ⟨d', tick'⟩ := exists_tick (slot ▸ full)
    rw [tick, tick']
    refine .some (Clock.alike_iff.mpr fun m => ?_)
    rw [count_tick tick, count_tick tick', Clock.alike_iff.mp same]

theorem isMerge : IsMerge count (fun a b : Clock => a.alike b = true) join :=
  isMerge_of_view count_join_eq alike_iff_count

theorem answers (left : a.alike a' = true) (right : b.alike b' = true) : Answers a b a' b' where
  get := get_eq left
  alike := by rw [Clock.alike, Clock.alike, descends_eq left right, descends_eq right left]
  descends := descends_eq left right
  before := by rw [Clock.before, Clock.before, descends_eq left right, descends_eq right left]
  concurrent := by
    rw [Clock.concurrent, Clock.concurrent, Clock.before, Clock.before, Clock.before, Clock.before,
      descends_eq left right, descends_eq right left]
  join := isMerge.congr a a' b b' left right
  tick := tick_rel left

end Replacing

/-- Clocks are a join semilattice under causality, up to slots at zero: being alike is an
equivalence that no operation sees through, descending is an order up to it, merging is its join,
and a tick is a strict step upwards at one slot. -/
theorem causality_is_semilattice :
    IsMerge count (fun a b : Clock => a.alike b = true) join ∧
    (∀ a b c : Clock, Ordered a b c) ∧
    (∀ (c : Clock) (n : NodeId), c.get n ≠ maxCount →
      ∃ d, c.tick? n = some d ∧ c.before d = true ∧ d.count n = c.count n + 1 ∧
        ∀ m, m ≠ n → d.slots.get? m = c.slots.get? m) ∧
    ∀ a a' b b' : Clock, a.alike a' = true → b.alike b' = true → Answers a b a' b' := by
  refine ⟨isMerge, ordered, fun c n room => ?_, fun a a' b b' => answers⟩
  obtain ⟨d, tick⟩ := exists_tick room
  refine ⟨d, tick, before_iff_lt.mpr (lt_tick tick), ?_, fun m other => ?_⟩
  · rw [count_tick tick, if_pos rfl]
  · rw [get?_slots_tick tick, if_neg other]

/-- A clock with a slot at zero is ticked there, and a clock without the slot does as well as it. -/
theorem zero_slot_seen_through :
    (ofList [("x", 0), ("y", 2)]).get "x" ≠ maxCount ∧
    (∃ d, (ofList [("x", 0), ("y", 2)]).tick? "x" = some d ∧
      (ofList [("x", 0), ("y", 2)]).before d = true ∧
      d.count "x" = (ofList [("x", 0), ("y", 2)]).count "x" + 1 ∧
      ∀ m, m ≠ "x" → d.slots.get? m = (ofList [("x", 0), ("y", 2)]).slots.get? m) ∧
    (ofList [("x", 0), ("y", 2)]).alike (ofList [("y", 2)]) = true ∧
    (ofList [("z", 1)]).alike (ofList [("w", 0), ("z", 1)]) = true ∧
    Answers (ofList [("x", 0), ("y", 2)]) (ofList [("z", 1)]) (ofList [("y", 2)])
      (ofList [("w", 0), ("z", 1)]) := by
  have room : (ofList [("x", 0), ("y", 2)]).get "x" ≠ maxCount := by decide
  have left : (ofList [("x", 0), ("y", 2)]).alike (ofList [("y", 2)]) = true := by decide
  have right : (ofList [("z", 1)]).alike (ofList [("w", 0), ("z", 1)]) = true := by decide
  obtain ⟨-, -, ticks, answers⟩ := causality_is_semilattice
  exact ⟨room, ticks _ _ room, left, right, answers _ _ _ _ left right⟩

end ThreatGossip.Clock

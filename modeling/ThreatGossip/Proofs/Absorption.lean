import ThreatGossip.Proofs.Histories
/-!
Taking in registers of another replica. A delta may leave out registers, but only such as the
receiver's version knows already; then the receiver ends up with the writes of both replicas.
-/
namespace ThreatGossip.RegisterMap

variable {α : Type} {log : List (Write α)} {m o : RegisterMap α} {rs : Registers α}

section Version

theorem le_foldl_join (regs : List (Register (Option α))) (c : Clock) :
    c ≤ regs.foldl (fun c r => c.join r.clock) c := by
  induction regs generalizing c with
  | nil => exact le_refl c
  | cons r rest ih => exact le_trans (Clock.le_join_left c r.clock) (ih _)

theorem clock_le_foldl_join {regs : List (Register (Option α))} {r : Register (Option α)}
    (member : r ∈ regs) (c : Clock) : r.clock ≤ regs.foldl (fun c r => c.join r.clock) c := by
  induction regs generalizing c with
  | nil => exact absurd member List.not_mem_nil
  | cons s rest ih =>
      rcases List.mem_cons.mp member with rfl | later
      · exact le_trans (Clock.le_join_right c r.clock) (le_foldl_join rest _)
      · exact ih later _

theorem foldl_join_le {regs : List (Register (Option α))} {c d : Clock} (start : c ≤ d)
    (each : ∀ r ∈ regs, r.clock ≤ d) : regs.foldl (fun c r => c.join r.clock) c ≤ d := by
  induction regs generalizing c with
  | nil => exact start
  | cons r rest ih =>
      refine ih (Clock.join_le start (each r List.mem_cons_self)) fun s later => ?_
      exact each s (List.mem_cons_of_mem _ later)

theorem positive_foldl_join {regs : List (Register (Option α))} {c : Clock} (start : c.Positive)
    (each : ∀ r ∈ regs, r.clock.Positive) :
    (regs.foldl (fun c r => c.join r.clock) c).Positive := by
  induction regs generalizing c with
  | nil => exact start
  | cons r rest ih =>
      refine ih (start.join (each r List.mem_cons_self)) fun s later => ?_
      exact each s (List.mem_cons_of_mem _ later)

theorem mem_values_iff {r : Register (Option α)} : r ∈ rs.values ↔ ∃ k, rs.get? k = some r := by
  simp only [SortedMap.values, List.mem_map, SortedMap.get?_eq_some_iff]
  constructor
  · rintro ⟨⟨k, _⟩, member, rfl⟩
    exact ⟨k, member⟩
  · rintro ⟨k, member⟩
    exact ⟨(k, r), member, rfl⟩

theorem le_version_absorb (m : RegisterMap α) (rs : Registers α) :
    m.version ≤ (m.absorb rs).version :=
  le_foldl_join _ _

theorem clock_le_version_absorb {k : String} {r : Register (Option α)} (found : rs.get? k = some r)
    (m : RegisterMap α) : r.clock ≤ (m.absorb rs).version :=
  clock_le_foldl_join (mem_values_iff.mpr ⟨k, found⟩) _

theorem version_absorb_le {c : Clock} (start : m.version ≤ c)
    (each : ∀ k r, rs.get? k = some r → r.clock ≤ c) : (m.absorb rs).version ≤ c := by
  refine foldl_join_le start fun r member => ?_
  obtain ⟨k, found⟩ := mem_values_iff.mp member
  exact each k r found

end Version

/-- Registers with the clocks of another replica's, of which only those are missing that a clock
knows. -/
structure Carries (rs : Registers α) (o : RegisterMap α) (known : Clock) : Prop where
  sound : ∀ k r, rs.get? k = some r → ∃ s, o.register? k = some s ∧ s.clock = r.clock
  complete : ∀ k s, o.register? k = some s → rs.get? k = none → s.clock ≤ known

theorem Carries.mono {c d : Clock} (h : Carries rs o c) (le : c ≤ d) : Carries rs o d :=
  ⟨h.sound, fun k s found missing => le_trans (h.complete k s found missing) le⟩

theorem delta_changes_some {o : RegisterMap α} {since : Clock} {now : Millis} {k : String}
    {r : Register (Option α)} (found : (o.delta since now).changes.get? k = some r) :
    o.register? k = some r := by
  simp only [delta, SortedMap.get?_filter] at found
  exact (Option.filter_eq_some_iff.mp found).1

/-- A register is in a delta unless the reader is taken to know it. -/
theorem get?_delta_changes {o : RegisterMap α} {k : String} {s : Register (Option α)}
    (found : o.register? k = some s) (since : Clock) (now : Millis) :
    (o.delta since now).changes.get? k = if since.descends s.clock then none else some s := by
  have found : o.registers.get? k = some s := found
  refine (SortedMap.get?_filter ..).trans ?_
  rw [found, Option.filter_some]
  cases since.descends s.clock <;> rfl

/-- A reader at a clock lacks the register under a key. -/
def Lacks (m : RegisterMap α) (since : Clock) (k : String) : Prop :=
  ∃ r, m.register? k = some r ∧ ¬r.clock ≤ since

/-- A delta has the keys that its reader lacks. -/
theorem mem_keys_delta_iff {k : String} (m : RegisterMap α) (since : Clock) (now : Millis) :
    k ∈ (m.delta since now).changes.keys ↔ m.Lacks since k := by
  rw [SortedMap.mem_keys_iff, SortedMap.contains_iff]
  constructor
  · rintro ⟨r, carried⟩
    have stored := delta_changes_some carried
    rw [get?_delta_changes stored] at carried
    refine ⟨r, stored, fun known => ?_⟩
    rw [if_pos (Clock.descends_iff.mpr known)] at carried
    contradiction
  · rintro ⟨r, stored, missing⟩
    refine ⟨r, ?_⟩
    rw [get?_delta_changes stored, if_neg]
    exact fun known => missing (Clock.descends_iff.mp known)

/-- A delta is empty for a reader who lacks nothing. -/
theorem delta_changes_eq_empty {m : RegisterMap α} {since : Clock}
    (known : ∀ k, ¬m.Lacks since k) (now : Millis) : (m.delta since now).changes = .empty := by
  apply SortedMap.eq_of_get?
  intro k
  rw [SortedMap.get?_empty, ← Option.not_isSome_iff_eq_none]
  intro carried
  exact known k ((mem_keys_delta_iff m since now).mp (SortedMap.mem_keys_iff.mpr carried))

/-- A delta leaves out what its reader is taken to know. -/
theorem carries_delta (o : RegisterMap α) (since : Clock) (now : Millis) :
    Carries (o.delta since now).changes o since := by
  constructor
  · exact fun k r found => ⟨r, delta_changes_some found, rfl⟩
  · intro k s found missing
    simp only [delta, SortedMap.get?_filter] at missing
    have found : o.registers.get? k = some s := found
    rw [found, Option.filter_some] at missing
    split at missing
    next => contradiction
    next skipped =>
      rw [Bool.not_eq_true, Bool.not_eq_false', Clock.descends_iff] at skipped
      exact skipped

/-- The receiver's version becomes the join of both. -/
theorem Carries.count_version (carries : Carries rs o m.version) (ho : o.Tracks log)
    (hlog : Coherent log) (n : NodeId) :
    (m.absorb rs).version.count n = max (m.version.count n) (o.version.count n) := by
  have upper : (m.absorb rs).version ≤ m.version.join o.version := by
    refine version_absorb_le (Clock.le_join_left _ _) fun k r found => ?_
    obtain ⟨s, stored, clock⟩ := carries.sound k r found
    rw [← clock]
    exact le_trans (ho.register_le hlog stored) (Clock.le_join_right _ _)
  have lower : o.version.count n ≤ (m.absorb rs).version.count n := by
    rcases Nat.eq_zero_or_pos (o.version.count n) with zero | pos
    · rw [zero]
      exact Nat.zero_le _
    · obtain ⟨w, member, author, number, known⟩ := ho.closed n _ pos (Nat.le_refl _)
      obtain ⟨s, stored, above⟩ := ho.absorbed member (Clock.counts_of_clock_le known)
      have reaches : o.version.count n ≤ s.clock.count n := by
        rw [← number, ← author]
        exact above _
      refine Nat.le_trans reaches ?_
      -- Whatever is not carried, the receiver's version knows already.
      cases carried : rs.get? w.key with
      | none => exact le_trans (carries.complete _ _ stored carried) (le_version_absorb m rs) n
      | some r =>
          obtain ⟨t, same, clock⟩ := carries.sound _ _ carried
          obtain rfl := Option.some.inj (stored.symm.trans same)
          rw [clock]
          exact clock_le_version_absorb carried m n
  have bound := upper n
  rw [Clock.count_join] at bound
  exact Nat.le_antisymm bound (Nat.max_le.mpr ⟨le_version_absorb m rs n, lower⟩)

theorem register?_absorb (m : RegisterMap α) (rs : Registers α) (k : String) :
    (m.absorb rs).register? k =
      match m.register? k, rs.get? k with
      | some a, some b => some (a.merge b)
      | some a, none => some a
      | none, b => b := by
  refine (SortedMap.get?_unionWith Register.merge m.registers rs k).trans ?_
  unfold register?
  cases m.registers.get? k <;> cases rs.get? k <;> rfl

/-- A register that is not brought stays as it is. -/
theorem register?_absorb_of_missing {k : String} (missing : rs.get? k = none)
    (m : RegisterMap α) : (m.absorb rs).register? k = m.register? k := by
  rw [register?_absorb, missing]
  cases m.register? k <;> rfl

theorem register?_merge (m o : RegisterMap α) (k : String) :
    (m.merge o).register? k =
      match m.register? k, o.register? k with
      | some a, some b => some (a.merge b)
      | some a, none => some a
      | none, b => b :=
  register?_absorb m o.registers k

theorem register?_absorb_eq_none {k : String} (missing : (m.absorb rs).register? k = none) :
    m.register? k = none ∧ rs.get? k = none := by
  rw [register?_absorb] at missing
  cases mine : m.register? k <;> cases carried : rs.get? k <;> simp [mine, carried] at missing ⊢

/-- Where a register of the receiver comes from: it stood there, was carried, or is both merged. -/
theorem register?_absorb_cases {k : String} {r : Register (Option α)}
    (found : (m.absorb rs).register? k = some r) :
    (m.register? k = some r ∧ rs.get? k = none) ∨ (m.register? k = none ∧ rs.get? k = some r) ∨
      ∃ a b, m.register? k = some a ∧ rs.get? k = some b ∧ r = a.merge b := by
  rw [register?_absorb] at found
  cases mine : m.register? k with
  | none =>
      rw [mine] at found
      exact .inr (.inl ⟨rfl, found⟩)
  | some a =>
      cases carried : rs.get? k with
      | none =>
          rw [mine, carried] at found
          exact .inl ⟨found, rfl⟩
      | some b =>
          rw [mine, carried] at found
          exact .inr (.inr ⟨a, b, rfl, rfl, (Option.some.inj found).symm⟩)

/-- What is not carried adds nothing to what the receiver has seen. -/
theorem Carries.seen_eq (carries : Carries rs o m.version) (ho : o.Tracks log) {c : Clock}
    (counts : ∀ n, c.count n = max (m.version.count n) (o.version.count n)) {k : String}
    (missing : rs.get? k = none) : seen log c k = seen log m.version k := by
  rw [seen_sup counts, Set.union_eq_left]
  cases stored : o.register? k with
  | none =>
      rw [ho.absent k stored]
      exact Set.empty_subset _
  | some s => exact ho.seen_subset stored (carries.complete k s stored missing)

/-- Causal completeness of a replica that has the merged registers and the joined version. -/
theorem Tracks.union {m' : RegisterMap α} (hm : m.Tracks log) (ho : o.Tracks log)
    (carries : Carries rs o m.version) (registers : ∀ k, m'.register? k = (m.absorb rs).register? k)
    (positive : m'.version.Positive)
    (counts : ∀ n, m'.version.count n = max (m.version.count n) (o.version.count n)) :
    m'.Tracks log := by
  constructor
  · exact hm.closed.sup ho.closed counts
  · exact positive
  · intro k found
    obtain ⟨mine, missing⟩ := register?_absorb_eq_none ((registers k).symm.trans found)
    rw [carries.seen_eq ho counts missing, hm.absent k mine]
  · intro k r found
    rcases register?_absorb_cases ((registers k).symm.trans found) with
      ⟨mine, missing⟩ | ⟨mine, carried⟩ | ⟨a, b, mine, carried, rfl⟩
    · rw [carries.seen_eq ho counts missing]
      exact hm.joins k r mine
    · obtain ⟨s, stored, clock⟩ := carries.sound k r carried
      rw [seen_sup counts, hm.absent k mine, Set.empty_union, ← clock]
      exact ho.joins k s stored
    · obtain ⟨s, stored, clock⟩ := carries.sound k b carried
      rw [seen_sup counts]
      refine (hm.joins k a mine).union (ho.joins k s stored) fun n => ?_
      rw [Register.count_merge, clock]
  · intro k r found
    rcases register?_absorb_cases ((registers k).symm.trans found) with
      ⟨mine, missing⟩ | ⟨mine, carried⟩ | ⟨a, b, mine, carried, rfl⟩
    · exact hm.registers k r mine
    · obtain ⟨s, stored, clock⟩ := carries.sound k r carried
      exact clock ▸ ho.registers k s stored
    · obtain ⟨s, stored, clock⟩ := carries.sound k b carried
      exact Register.positive_merge (hm.registers k a mine) (clock ▸ ho.registers k s stored)

theorem positive_version_absorb (hm : m.Tracks log) (ho : o.Tracks log)
    (carries : Carries rs o m.version) : (m.absorb rs).version.Positive := by
  refine positive_foldl_join hm.positive fun r member => ?_
  obtain ⟨k, found⟩ := mem_values_iff.mp member
  obtain ⟨s, stored, clock⟩ := carries.sound k r found
  rw [← clock]
  exact ho.registers k s stored

theorem Tracks.absorb (hm : m.Tracks log) (ho : o.Tracks log) (hlog : Coherent log)
    (carries : Carries rs o m.version) : (m.absorb rs).Tracks log :=
  hm.union ho carries (fun _ => rfl) (positive_version_absorb hm ho carries)
    (carries.count_version ho hlog)

/-- Another copy of a replica, as far as clocks tell. -/
structure SameClocks (copy o : RegisterMap α) : Prop where
  version : copy.version = o.version
  registers : ∀ k, (copy.register? k).map Register.clock = (o.register? k).map Register.clock

theorem SameClocks.refl (o : RegisterMap α) : SameClocks o o := ⟨rfl, fun _ => rfl⟩

theorem SameClocks.carries {copy : RegisterMap α} (h : SameClocks copy o) (c : Clock) :
    Carries copy.registers o c := by
  constructor
  · intro k r found
    have clocks := h.registers k
    have found : copy.register? k = some r := found
    rw [found, Option.map_some] at clocks
    exact Option.map_eq_some_iff.mp clocks.symm
  · intro k s stored missing
    have clocks := h.registers k
    have missing : copy.register? k = none := missing
    rw [missing, stored] at clocks
    contradiction

theorem count_version_merge {copy : RegisterMap α} (same : SameClocks copy o) (ho : o.Tracks log)
    (hlog : Coherent log) (n : NodeId) :
    (m.merge copy).version.count n = max (m.version.count n) (o.version.count n) := by
  change ((m.absorb copy.registers).version.join copy.version).count n = _
  rw [Clock.count_join, (same.carries m.version).count_version ho hlog, same.version,
    Nat.max_assoc, Nat.max_self]

theorem Tracks.merge {copy : RegisterMap α} (hm : m.Tracks log) (same : SameClocks copy o)
    (ho : o.Tracks log) (hlog : Coherent log) : (m.merge copy).Tracks log := by
  have carries := same.carries m.version
  refine hm.union ho carries (fun _ => rfl) ?_ (count_version_merge same ho hlog)
  change ((m.absorb copy.registers).version.join copy.version).Positive
  rw [same.version]
  exact (positive_version_absorb hm ho carries).join ho.positive

end ThreatGossip.RegisterMap

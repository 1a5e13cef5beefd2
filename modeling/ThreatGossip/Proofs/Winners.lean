import Mathlib.Data.Prod.Lex
import Mathlib.Data.String.Basic
import ThreatGossip.Proofs.Absorption
/-!
Which write a register shows. Writes are ranked by timestamp and then by writer. As long as no
timestamp reaches the top, a write outranks every write to its key that its author had seen, and so
each register shows the greatest of all the writes to its key that its replica has absorbed.
-/
namespace ThreatGossip

variable {α : Type}

namespace Register

/-- What decides between concurrent writes: the timestamp and then the writer. -/
def rank (r : Register α) : Nat ×ₗ String := toLex (r.timestamp.toNat, r.writer)

theorem outranks_iff {a b : Register α} : a.outranks b = true ↔ b.rank < a.rank := by
  rw [outranks, rank, rank, Prod.Lex.toLex_lt_toLex]
  simp only [Bool.or_eq_true, Bool.and_eq_true, decide_eq_true_eq, beq_iff_eq,
    UInt64.lt_iff_toNat_lt, ← UInt64.toNat_inj]
  constructor
  · rintro (later | ⟨same, writer⟩)
    · exact .inl later
    · exact .inr ⟨same.symm, writer⟩
  · rintro (later | ⟨same, writer⟩)
    · exact .inl later
    · exact .inr ⟨same.symm, writer⟩

theorem rank_eq_iff {a b : Register α} :
    a.rank = b.rank ↔ a.timestamp = b.timestamp ∧ a.writer = b.writer := by
  rw [rank, rank, toLex_inj, Prod.mk.injEq, UInt64.toNat_inj]

/-- The value, timestamp and writer are those of a write. -/
structure IsOf (r : Register (Option α)) (w : Write α) : Prop where
  value : r.value = w.register.value
  timestamp : r.timestamp = w.register.timestamp
  writer : r.writer = w.register.writer

theorem IsOf.rank {r : Register (Option α)} {w : Write α} (h : r.IsOf w) :
    r.rank = w.register.rank := by
  rw [rank_eq_iff]
  exact ⟨h.timestamp, h.writer⟩

theorem IsOf.withClock {r : Register (Option α)} {w : Write α} (h : r.IsOf w) (c : Clock) :
    { r with clock := c }.IsOf w :=
  ⟨h.value, h.timestamp, h.writer⟩

theorem IsOf.eq_of_clock {r s : Register (Option α)} {w : Write α} (hr : r.IsOf w) (hs : s.IsOf w)
    (clocks : r.clock = s.clock) : r = s := by
  obtain ⟨value, timestamp, clock, writer⟩ := r
  obtain ⟨value', timestamp', clock', writer'⟩ := s
  have values : value = value' := hr.value.trans hs.value.symm
  have timestamps : timestamp = timestamp' := hr.timestamp.trans hs.timestamp.symm
  have writers : writer = writer' := hr.writer.trans hs.writer.symm
  have clocks : clock = clock' := clocks
  rw [values, timestamps, writers, clocks]

/-- The register shows the one write of the greatest rank. -/
def Shows (r : Register (Option α)) (ws : Set (Write α)) : Prop :=
  ∃ w ∈ ws, r.IsOf w ∧ ∀ x ∈ ws, x ≠ w → x.register.rank < w.register.rank

variable {a b : Register (Option α)} {ws xs : Set (Write α)}

theorem Shows.withClock (h : a.Shows ws) (c : Clock) : { a with clock := c }.Shows ws := by
  obtain ⟨w, member, shown, top⟩ := h
  exact ⟨w, member, shown.withClock c, top⟩

theorem Shows.rank_le (h : a.Shows ws) {x : Write α} (member : x ∈ ws) :
    x.register.rank ≤ a.rank := by
  obtain ⟨w, -, shown, top⟩ := h
  rw [shown.rank]
  by_cases same : x = w
  · rw [same]
  · exact (top x member same).le

theorem Shows.union_of_lt (ha : a.Shows ws) (above : ∀ x ∈ xs, x.register.rank < a.rank) :
    a.Shows (ws ∪ xs) := by
  obtain ⟨w, member, shown, top⟩ := ha
  refine ⟨w, .inl member, shown, ?_⟩
  rintro x (mine | other) ne
  · exact top x mine ne
  · rw [← shown.rank]
    exact above x other

theorem Shows.union_of_le (ha : a.Shows ws) (hb : b.Shows xs) (le : b.rank ≤ a.rank)
    (distinct : ∀ w ∈ ws, ∀ x ∈ xs, w.register.rank = x.register.rank → w = x) :
    a.Shows (ws ∪ xs) := by
  obtain ⟨w, member, shown, top⟩ := ha
  refine ⟨w, .inl member, shown, ?_⟩
  rintro x (mine | other) ne
  · exact top x mine ne
  · have bound : x.register.rank ≤ w.register.rank :=
      shown.rank ▸ le_trans (hb.rank_le other) le
    refine lt_of_le_of_ne bound fun same => ?_
    exact ne (distinct w member x other same.symm).symm

/-- Merged registers show the greatest of all their writes, if a register that knows less than the
other one has absorbed only writes of the other's. -/
theorem Shows.merge (ha : a.Shows ws) (hb : b.Shows xs)
    (behind : a.clock ≤ b.clock → ws ⊆ xs) (ahead : b.clock ≤ a.clock → xs ⊆ ws)
    (distinct : ∀ w ∈ ws, ∀ x ∈ xs, w.register.rank = x.register.rank → w = x) :
    (a.merge b).Shows (ws ∪ xs) := by
  unfold Register.merge
  split
  -- A discarded register has absorbed nothing that the kept one has not.
  next before =>
    rw [Set.union_eq_left.mpr (ahead (Clock.before_iff.mp before).1)]
    exact ha
  next =>
    split
    next adopt =>
      refine Shows.withClock ?_ _
      rcases Bool.or_eq_true _ _ ▸ adopt with before | wins
      · rw [Set.union_eq_right.mpr (behind (Clock.before_iff.mp before).1)]
        exact hb
      · rw [Set.union_comm]
        exact hb.union_of_lt fun x member =>
          lt_of_le_of_lt (ha.rank_le member) (outranks_iff.mp wins)
    next keep =>
      refine Shows.withClock ?_ _
      rw [Bool.or_eq_true, not_or, outranks_iff, not_lt] at keep
      exact ha.union_of_le hb keep.2 distinct

/-- The register stands for all of some writes: it shows the greatest under the join of
their clocks. -/
structure Summarizes (r : Register (Option α)) (ws : Set (Write α)) : Prop where
  shows : r.Shows ws
  joins : Joins ws r.clock

theorem Summarizes.unique (ha : a.Summarizes ws) (hb : b.Summarizes ws) (pa : a.clock.Positive)
    (pb : b.clock.Positive) : a = b := by
  obtain ⟨w, member, shown, top⟩ := ha.shows
  obtain ⟨x, other, shown', top'⟩ := hb.shows
  have same : w = x := by
    by_contra ne
    exact lt_asymm (top x other (Ne.symm ne)) (top' w member ne)
  refine shown.eq_of_clock (same ▸ shown') ?_
  exact pa.eq_of_count pb fun n => (ha.joins n).unique (hb.joins n)

end Register

/-- A write outranks every write to its key that its author had seen. -/
def Ranked (log : List (Write α)) : Prop :=
  ∀ d ∈ log, ∀ w ∈ log, w.key = d.key → w ≠ d → d.clock.Counts w →
    w.register.timestamp.toNat < d.register.timestamp.toNat

/-- No write has been stamped with the greatest timestamp. -/
def Unsaturated (log : List (Write α)) : Prop := ∀ w ∈ log, w.register.timestamp ≠ maxCount

theorem Unsaturated.mono {log more : List (Write α)} (h : Unsaturated more)
    (sub : ∀ w ∈ log, w ∈ more) : Unsaturated log :=
  fun w member => h w (sub w member)

variable {log : List (Write α)}

/-- Two writes of one author to one key have different timestamps. -/
theorem Ranked.eq_of_rank (h : Ranked log) {w x : Write α} (hw : w ∈ log)
    (hx : x ∈ log) (key : w.key = x.key) (rank : w.register.rank = x.register.rank) : w = x := by
  obtain ⟨stamps, writers⟩ := Register.rank_eq_iff.mp rank
  have author : w.author = x.author := writers
  by_contra ne
  rcases Nat.le_total w.number x.number with le | le
  · have counted : x.clock.Counts w := by
      rw [Clock.Counts, author]
      exact le
    have later := h x hx w hw key ne counted
    rw [stamps] at later
    exact Nat.lt_irrefl _ later
  · have counted : w.clock.Counts x := by
      rw [Clock.Counts, ← author]
      exact le
    have later := h w hw x hx key.symm (Ne.symm ne) counted
    rw [stamps] at later
    exact Nat.lt_irrefl _ later

namespace RegisterMap

variable {m o : RegisterMap α} {rs : Registers α}

/-- Every register shows the greatest of the writes that the replica has absorbed. -/
def Shows (m : RegisterMap α) (log : List (Write α)) : Prop :=
  ∀ k r, m.register? k = some r → r.Shows (seen log m.version k)

theorem shows_empty (owner : NodeId) (log : List (Write α)) : (empty owner).Shows log :=
  fun _ _ found => nomatch found

theorem Shows.cons (h : o.Shows log) {w : Write α} (fresh : ¬o.version.Counts w) :
    o.Shows (w :: log) := fun k r found => by
  rw [seen_cons_of_not_counts fresh]
  exact h k r found

section LocalWrite

variable {key : String} {value : Option α} {wall : Millis} {m' : RegisterMap α}

/-- The stamp of a local write is past all that its author has seen under the key. -/
theorem stamp_above (shows : m.Shows log) (hm : m.Tracks log) (bounded : Unsaturated log)
    (put : m.put? key value wall = some m') {w : Write α} (at_key : w.key = key)
    (wrote : m'.Wrote w) {x : Write α} (member : x ∈ seen log m.version w.key) :
    x.register.timestamp.toNat < w.register.timestamp.toNat := by
  obtain ⟨-, -, registers⟩ := put?_spec put
  have stamped := registers key
  rw [if_pos rfl, ← at_key, wrote] at stamped
  have stamp := congrArg Register.timestamp (Option.some.inj stamped)
  cases found : m.register? w.key with
  | none =>
      rw [hm.absent _ found] at member
      contradiction
  | some r =>
      rw [found] at stamp
      have stamp : w.register.timestamp = max wall (satAdd r.timestamp 1) := stamp
      obtain ⟨top, seen_top, shown, -⟩ := shows _ r found
      have below : x.register.timestamp.toNat ≤ r.timestamp.toNat := by
        rcases Prod.Lex.toLex_le_toLex.mp ((shows _ r found).rank_le member) with lt | ⟨eq, -⟩
        · exact Nat.le_of_lt lt
        · exact Nat.le_of_eq eq
      have room : r.timestamp.toNat ≠ maxCount.toNat := fun full =>
        bounded top seen_top.1 (shown.timestamp ▸ UInt64.toNat_inj.mp full)
      have limit := r.timestamp.toNat_lt
      have top_value : maxCount.toNat = 18446744073709551615 := rfl
      rw [stamp, toNat_max, toNat_satAdd, top_value, UInt64.toNat_one]
      rw [top_value] at room
      omega

theorem ranked_cons (h : Ranked log) (shows : m.Shows log) (hlog : Coherent log)
    (hm : m.Tracks log) (own : m.CountsOwn log) (bounded : Unsaturated log)
    (put : m.put? key value wall = some m') {w : Write α} (at_key : w.key = key)
    (wrote : m'.Wrote w) : Ranked (w :: log) := by
  have logs := logs_of_put put at_key wrote
  intro d hd x hx same ne counted
  rcases List.mem_cons.mp hd with rfl | old
  -- The new write's clock counts what its author had seen, and nobody else counts the new write.
  · rcases List.mem_cons.mp hx with rfl | earlier
    · contradiction
    · have member : x ∈ seen log m.version d.key := by
        rw [← logs.seen_eq own]
        exact ⟨earlier, same, logs.clock ▸ counted⟩
      exact stamp_above shows hm bounded put at_key wrote member
  · rcases List.mem_cons.mp hx with rfl | earlier
    · exact absurd counted (logs.fresh own (hlog.closed d old))
    · exact h d old x earlier same ne counted

theorem Shows.put (shows : m.Shows log) (hm : m.Tracks log) (own : m.CountsOwn log)
    (bounded : Unsaturated log) (put : m.put? key value wall = some m') {w : Write α}
    (at_key : w.key = key) (wrote : m'.Wrote w) : m'.Shows (w :: log) := by
  have logs := logs_of_put put at_key wrote
  obtain ⟨-, -, registers⟩ := put?_spec put
  intro k r found
  rw [logs.seen_cons own]
  by_cases same : k = w.key
  · subst same
    obtain rfl := Option.some.inj (wrote.symm.trans found)
    rw [if_pos rfl]
    refine ⟨w, Set.mem_insert _ _, ⟨rfl, rfl, rfl⟩, ?_⟩
    rintro x (rfl | member) ne
    · contradiction
    · exact Prod.Lex.toLex_lt_toLex.mpr
        (.inl (stamp_above shows hm bounded put at_key wrote member))
  · rw [if_neg same]
    rw [registers, if_neg (at_key ▸ same)] at found
    exact shows k r found

end LocalWrite

/-- Taking in registers of another replica keeps the greatest writes on show. -/
theorem Shows.union {m' : RegisterMap α} (hlog : Coherent log) (ranked : Ranked log)
    (hm : m.Tracks log) (ho : o.Tracks log) (sm : m.Shows log) (so : o.Shows log)
    (carries : Carries rs o m.version) (copied : ∀ k r, rs.get? k = some r → o.register? k = some r)
    (registers : ∀ k, m'.register? k = (m.absorb rs).register? k)
    (counts : ∀ n, m'.version.count n = max (m.version.count n) (o.version.count n)) :
    m'.Shows log := by
  intro k r found
  rcases register?_absorb_cases ((registers k).symm.trans found) with
    ⟨mine, missing⟩ | ⟨mine, carried⟩ | ⟨a, b, mine, carried, rfl⟩
  · rw [carries.seen_eq ho counts missing]
    exact sm k r mine
  · rw [seen_sup counts, hm.absent k mine, Set.empty_union]
    exact so k r (copied k r carried)
  · have stored := copied k b carried
    rw [seen_sup counts]
    refine (sm k a mine).merge (so k b stored) ?_ ?_ ?_
    · exact fun le => hm.seen_subset mine (le_trans le (ho.register_le hlog stored))
    · exact fun le => ho.seen_subset stored (le_trans le (hm.register_le hlog mine))
    · exact fun w hw x hx rank =>
        ranked.eq_of_rank hw.1 hx.1 (hw.2.1.trans hx.2.1.symm) rank

theorem Shows.summarizes (shows : m.Shows log) (tracks : m.Tracks log) {k : String}
    {r : Register (Option α)} (found : m.register? k = some r) :
    r.Summarizes (seen log m.version k) :=
  ⟨shows k r found, tracks.joins k r found⟩

/-- Replicas that have seen the same hold the same registers. -/
theorem registers_eq (hm : m.Tracks log) (ho : o.Tracks log) (sm : m.Shows log) (so : o.Shows log)
    (alike : ∀ n, m.version.count n = o.version.count n) : m.registers = o.registers := by
  have same : ∀ k, seen log m.version k = seen log o.version k := fun k => by
    ext w
    simp only [seen, Set.mem_ofPred_eq, Clock.Counts, alike]
  apply SortedMap.eq_of_get?
  intro k
  change m.register? k = o.register? k
  cases fm : m.register? k with
  | none =>
      have absent := ho.isSome_iff k
      rw [← same, ← hm.isSome_iff, fm] at absent
      cases fo : o.register? k with
      | none => rfl
      | some s => simp [fo] at absent
  | some r =>
      have present := ho.isSome_iff k
      rw [← same, ← hm.isSome_iff, fm] at present
      obtain ⟨s, fo⟩ := Option.isSome_iff_exists.mp (present.mpr rfl)
      have mine := sm.summarizes hm fm
      have theirs := so.summarizes ho fo
      rw [← same] at theirs
      rw [fo, mine.unique theirs (hm.registers k r fm) (ho.registers k s fo)]

end RegisterMap

end ThreatGossip

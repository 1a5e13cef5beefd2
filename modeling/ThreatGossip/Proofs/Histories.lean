import Mathlib.Order.Bounds.Basic
import Mathlib.Order.MinMax
import Mathlib.Data.Set.Insert
import ThreatGossip.Proofs.Clocks
import ThreatGossip.RegisterMap
/-!
Writes and what a replica knows of them. A log holds every local write ever made; a clock counts the
writes of each author up to a number. `Tracks` is the invariant of causal completeness: a replica
has absorbed exactly the writes that its version counts. Local writes keep it, and so does taking in
registers of another replica of which only those are missing that the version counts already.
-/
namespace ThreatGossip

variable {α : Type}

/-- A local write: its key and the register that it left there. -/
structure Write (α : Type) where
  key : String
  register : Register (Option α)

namespace Write

def author (w : Write α) : NodeId := w.register.writer

/-- Everything that its author knew, the write itself included. -/
def clock (w : Write α) : Clock := w.register.clock

/-- Which of its author's writes it is, counted from one. -/
def number (w : Write α) : Nat := w.clock.count w.author

end Write

namespace Clock

/-- The clock counts a write when it counts as many events of the author. -/
def Counts (c : Clock) (w : Write α) : Prop := w.number ≤ c.count w.author

theorem Counts.mono {a b : Clock} {w : Write α} (h : a.Counts w) (le : a ≤ b) : b.Counts w :=
  Nat.le_trans h (le _)

theorem counts_of_clock_le {c : Clock} {w : Write α} (le : w.clock ≤ c) : c.Counts w := le _

theorem counts_sup_iff {a b c : Clock} {w : Write α}
    (counts : ∀ n, c.count n = max (a.count n) (b.count n)) :
    c.Counts w ↔ a.Counts w ∨ b.Counts w := by
  unfold Counts
  rw [counts]
  exact le_max_iff

/-- Every event that the clock counts is a write of the log whose author knew no more. -/
def Closed (log : List (Write α)) (c : Clock) : Prop :=
  ∀ n i, 0 < i → i ≤ c.count n → ∃ w ∈ log, w.author = n ∧ w.number = i ∧ w.clock ≤ c

theorem closed_empty (log : List (Write α)) : empty.Closed log := by
  intro n i pos le
  rw [count_empty] at le
  omega

theorem Closed.mono {log more : List (Write α)} {c : Clock} (h : c.Closed log)
    (sub : ∀ w ∈ log, w ∈ more) : c.Closed more := by
  intro n i pos le
  obtain ⟨w, member, rest⟩ := h n i pos le
  exact ⟨w, sub w member, rest⟩

theorem Closed.sup {log : List (Write α)} {a b c : Clock} (ha : a.Closed log) (hb : b.Closed log)
    (counts : ∀ n, c.count n = max (a.count n) (b.count n)) : c.Closed log := by
  have left : a ≤ c := fun n => by rw [counts]; exact Nat.le_max_left _ _
  have right : b ≤ c := fun n => by rw [counts]; exact Nat.le_max_right _ _
  intro n i pos le
  rw [counts] at le
  rcases le_max_iff.mp le with le | le
  · obtain ⟨w, member, author, number, known⟩ := ha n i pos le
    exact ⟨w, member, author, number, le_trans known left⟩
  · obtain ⟨w, member, author, number, known⟩ := hb n i pos le
    exact ⟨w, member, author, number, le_trans known right⟩

end Clock

/-- A log in which authors number their writes and knew all that their clocks count. -/
structure Coherent (log : List (Write α)) : Prop where
  numbered : ∀ w ∈ log, 0 < w.number
  unique : ∀ w ∈ log, ∀ x ∈ log, w.author = x.author → w.number = x.number → w = x
  closed : ∀ w ∈ log, w.clock.Closed log
  positive : ∀ w ∈ log, w.clock.Positive

theorem Coherent.nil : Coherent ([] : List (Write α)) := by
  constructor <;> exact fun _ member => absurd member List.not_mem_nil

/-- A closed clock that counts a write knows all that the write's author knew. -/
theorem Coherent.clock_le {log : List (Write α)} (h : Coherent log) {c : Clock}
    (closed : c.Closed log) {w : Write α} (member : w ∈ log) (counted : c.Counts w) :
    w.clock ≤ c := by
  obtain ⟨x, other, author, number, known⟩ := closed w.author w.number (h.numbered w member) counted
  rw [h.unique w member x other author.symm number.symm]
  exact known

/-- The logged writes to a key that a clock counts. -/
def seen (log : List (Write α)) (c : Clock) (key : String) : Set (Write α) :=
  {w | w ∈ log ∧ w.key = key ∧ c.Counts w}

theorem seen_sup {log : List (Write α)} {a b c : Clock}
    (counts : ∀ n, c.count n = max (a.count n) (b.count n)) (key : String) :
    seen log c key = seen log a key ∪ seen log b key := by
  ext w
  simp only [seen, Set.mem_ofPred_eq, Set.mem_union, Clock.counts_sup_iff counts]
  constructor
  · rintro ⟨member, eq, counted | counted⟩
    · exact .inl ⟨member, eq, counted⟩
    · exact .inr ⟨member, eq, counted⟩
  · rintro (⟨member, eq, counted⟩ | ⟨member, eq, counted⟩)
    · exact ⟨member, eq, .inl counted⟩
    · exact ⟨member, eq, .inr counted⟩

/-- The clock is the pointwise maximum of the clocks of some writes. -/
def Joins (ws : Set (Write α)) (c : Clock) : Prop :=
  ∀ n, IsGreatest ((fun w : Write α => w.clock.count n) '' ws) (c.count n)

theorem Joins.nonempty {ws : Set (Write α)} {c : Clock} (h : Joins ws c) : ws.Nonempty := by
  obtain ⟨⟨w, member, -⟩, -⟩ := h ""
  exact ⟨w, member⟩

theorem Joins.clock_le {ws : Set (Write α)} {c : Clock} (h : Joins ws c) {w : Write α}
    (member : w ∈ ws) : w.clock ≤ c :=
  fun n => (h n).2 ⟨w, member, rfl⟩

theorem Joins.le {ws : Set (Write α)} {c d : Clock} (h : Joins ws c)
    (known : ∀ w ∈ ws, w.clock ≤ d) : c ≤ d := by
  intro n
  obtain ⟨⟨w, member, eq⟩, -⟩ := h n
  have eq : w.clock.count n = c.count n := eq
  rw [← eq]
  exact known w member n

theorem Joins.union {ws xs : Set (Write α)} {a b c : Clock} (ha : Joins ws a) (hb : Joins xs b)
    (counts : ∀ n, c.count n = max (a.count n) (b.count n)) : Joins (ws ∪ xs) c := by
  intro n
  rw [Set.image_union, counts]
  exact (ha n).union (hb n)

theorem Register.count_merge {α : Type} (a b : Register α) (n : NodeId) :
    (a.merge b).clock.count n = max (a.clock.count n) (b.clock.count n) := by
  unfold Register.merge
  split
  next before => exact (Nat.max_eq_left ((Clock.before_iff.mp before).1 n)).symm
  next =>
    split
    · exact Clock.count_join _ _ n
    · exact Clock.count_join _ _ n

theorem Register.positive_merge {α : Type} {a b : Register α} (ha : a.clock.Positive)
    (hb : b.clock.Positive) : (a.merge b).clock.Positive := by
  unfold Register.merge
  split
  · exact ha
  · split
    · exact ha.join hb
    · exact ha.join hb

namespace RegisterMap

/-- The replica has absorbed exactly the writes that its version counts: it has a register for a key
when there is such a write to it, and the register's clock is the join of theirs. -/
structure Tracks (m : RegisterMap α) (log : List (Write α)) : Prop where
  closed : m.version.Closed log
  positive : m.version.Positive
  absent : ∀ k, m.register? k = none → seen log m.version k = ∅
  joins : ∀ k r, m.register? k = some r → Joins (seen log m.version k) r.clock
  registers : ∀ k r, m.register? k = some r → r.clock.Positive

variable {m o : RegisterMap α} {log : List (Write α)}

theorem tracks_empty (owner : NodeId) (log : List (Write α)) (numbered : ∀ w ∈ log, 0 < w.number) :
    (empty owner).Tracks log where
  closed := Clock.closed_empty log
  positive := Clock.positive_empty
  absent := by
    intro k _
    ext w
    refine ⟨fun ⟨member, _, counted⟩ => ?_, fun h => nomatch h⟩
    have pos := numbered w member
    have none : w.number ≤ 0 := counted
    omega
  joins := fun _ _ found => nomatch found
  registers := fun _ _ found => nomatch found

/-- A counted write has been absorbed by the register of its key. -/
theorem Tracks.absorbed (h : m.Tracks log) {w : Write α} (member : w ∈ log)
    (counted : m.version.Counts w) : ∃ r, m.register? w.key = some r ∧ w.clock ≤ r.clock := by
  have mem : w ∈ seen log m.version w.key := ⟨member, rfl, counted⟩
  cases found : m.register? w.key with
  | none => rw [h.absent _ found] at mem; contradiction
  | some r => exact ⟨r, rfl, (h.joins _ _ found).clock_le mem⟩

theorem Tracks.isSome_iff (h : m.Tracks log) (k : String) :
    (m.register? k).isSome ↔ (seen log m.version k).Nonempty := by
  cases found : m.register? k with
  | none => simp [h.absent k found]
  | some r => simpa using (h.joins k r found).nonempty

theorem Tracks.register_le (h : m.Tracks log) (hlog : Coherent log) {k : String}
    {r : Register (Option α)} (found : m.register? k = some r) : r.clock ≤ m.version :=
  (h.joins k r found).le fun _ member => hlog.clock_le h.closed member.1 member.2.2

/-- A clock that knows a register of a replica counts every write that the register absorbed. -/
theorem Tracks.seen_subset (h : m.Tracks log) {k : String} {r : Register (Option α)}
    (found : m.register? k = some r) {c : Clock} (le : r.clock ≤ c) :
    seen log m.version k ⊆ seen log c k := by
  intro w member
  have known : w.clock ≤ c := le_trans ((h.joins k r found).clock_le member) le
  exact ⟨member.1, member.2.1, Clock.counts_of_clock_le known⟩

section LocalWrite

variable {key : String} {value : Option α} {wall : Millis} {m' : RegisterMap α}

/-- What a local write does: it ticks the version and stamps one register with it. -/
theorem put?_spec (put : m.put? key value wall = some m') :
    m.version.tick? m.owner = some m'.version ∧ m'.owner = m.owner ∧
      ∀ k, m'.register? k =
        if k = key then
          some (((m.register? key).getD (.initial m.owner none)).stamp m.owner value wall
            m'.version)
        else m.register? k := by
  obtain ⟨version, tick, rfl⟩ := Option.map_eq_some_iff.mp put
  exact ⟨tick, rfl, fun k => SortedMap.get?_insert _ _ _ _⟩

/-- A write goes through when its tick does. -/
theorem exists_put {version : Clock} (tick : m.version.tick? m.owner = some version)
    (key : String) (value : Option α) (wall : Millis) :
    ∃ m', m.put? key value wall = some m' ∧ m'.version = version :=
  ⟨_, Option.map_eq_some_iff.mpr ⟨version, tick, rfl⟩, rfl⟩

/-- The write that a replica made last, under a key: the register that stands there now. -/
def Wrote (m' : RegisterMap α) (w : Write α) : Prop := m'.register? w.key = some w.register

/-- The version counts every logged write of the owner. -/
def CountsOwn (m : RegisterMap α) (log : List (Write α)) : Prop :=
  ∀ w ∈ log, w.author = m.owner → m.version.Counts w

/-- The logged write of a local write: made by the owner under the ticked version. -/
structure Logs (m m' : RegisterMap α) (w : Write α) : Prop where
  author : w.author = m.owner
  clock : w.clock = m'.version
  number : w.number = m.version.count m.owner + 1
  tick : m.version.tick? m.owner = some m'.version

theorem logs_of_put (put : m.put? key value wall = some m') {w : Write α} (at_key : w.key = key)
    (wrote : m'.Wrote w) : Logs m m' w := by
  obtain ⟨tick, -, registers⟩ := put?_spec put
  have stamped := registers key
  rw [if_pos rfl, ← at_key, wrote] at stamped
  have author : w.author = m.owner := congrArg Register.writer (Option.some.inj stamped)
  have clock : w.clock = m'.version := congrArg Register.clock (Option.some.inj stamped)
  refine ⟨author, clock, ?_, tick⟩
  rw [Write.number, clock, author, Clock.count_tick tick, if_pos rfl]

/-- No replica counts a write before it is made. -/
theorem Logs.fresh {w : Write α} (logs : Logs m m' w) (own : m.CountsOwn log) {c : Clock}
    (closed : c.Closed log) : ¬c.Counts w := by
  intro counted
  obtain ⟨x, member, author, number, -⟩ :=
    closed w.author w.number (by rw [logs.number]; omega) counted
  have counts := own x member (author.trans logs.author)
  rw [Clock.Counts, number, author, logs.number, logs.author] at counts
  omega

theorem Logs.closed {w : Write α} (logs : Logs m m' w) (hm : m.Tracks log) :
    m'.version.Closed (w :: log) := by
  intro n i pos le
  have grow := Clock.le_tick logs.tick
  rw [Clock.count_tick logs.tick] at le
  by_cases old : i ≤ m.version.count n
  · obtain ⟨x, member, author, number, known⟩ := hm.closed n i pos old
    exact ⟨x, List.mem_cons_of_mem _ member, author, number, le_trans known grow⟩
  · have same : n = m.owner := by
      by_contra other
      rw [if_neg other] at le
      omega
    subst same
    rw [if_pos rfl] at le
    exact ⟨w, List.mem_cons_self, logs.author, by rw [logs.number]; omega,
      le_of_eq logs.clock⟩

theorem Logs.coherent {w : Write α} (logs : Logs m m' w) (hlog : Coherent log) (hm : m.Tracks log)
    (own : m.CountsOwn log) : Coherent (w :: log) := by
  have wclosed := logs.closed hm
  have other : ∀ x ∈ log, ¬(x.author = w.author ∧ x.number = w.number) := by
    rintro x member ⟨author, number⟩
    have counted : x.clock.Counts w := by
      rw [Clock.Counts, ← number, ← author]
      exact Nat.le_refl _
    exact logs.fresh own (hlog.closed x member) counted
  constructor
  · intro x member
    rcases List.mem_cons.mp member with rfl | member
    · rw [logs.number]
      omega
    · exact hlog.numbered x member
  · intro x hx y hy author number
    rcases List.mem_cons.mp hx with rfl | old
    · rcases List.mem_cons.mp hy with rfl | earlier
      · rfl
      · exact absurd ⟨author.symm, number.symm⟩ (other y earlier)
    · rcases List.mem_cons.mp hy with rfl | earlier
      · exact absurd ⟨author, number⟩ (other x old)
      · exact hlog.unique x old y earlier author number
  · intro x member
    rcases List.mem_cons.mp member with rfl | member
    · rw [logs.clock]
      exact wclosed
    · exact (hlog.closed x member).mono fun _ h => List.mem_cons_of_mem _ h
  · intro x member
    rcases List.mem_cons.mp member with rfl | member
    · rw [logs.clock]
      exact hm.positive.tick logs.tick
    · exact hlog.positive x member

theorem seen_cons_of_not_counts {w : Write α} {c : Clock} (fresh : ¬c.Counts w) (k : String) :
    seen (w :: log) c k = seen log c k := by
  ext x
  simp only [seen, Set.mem_ofPred_eq, List.mem_cons]
  constructor
  · rintro ⟨rfl | member, rest⟩
    · exact absurd rest.2 fresh
    · exact ⟨member, rest⟩
  · rintro ⟨member, rest⟩
    exact ⟨.inr member, rest⟩

theorem Tracks.cons (h : o.Tracks log) {w : Write α} (fresh : ¬o.version.Counts w) :
    o.Tracks (w :: log) where
  closed := h.closed.mono fun _ member => List.mem_cons_of_mem _ member
  positive := h.positive
  absent := fun k found => by rw [seen_cons_of_not_counts fresh]; exact h.absent k found
  joins := fun k r found => by rw [seen_cons_of_not_counts fresh]; exact h.joins k r found
  registers := h.registers

/-- Of the old writes the writer counts the same ones as before. -/
theorem Logs.seen_eq {w : Write α} (logs : Logs m m' w) (own : m.CountsOwn log) (k : String) :
    seen log m'.version k = seen log m.version k := by
  ext x
  refine ⟨fun ⟨member, eq, counted⟩ => ⟨member, eq, ?_⟩,
    fun ⟨member, eq, counted⟩ => ⟨member, eq, counted.mono (Clock.le_tick logs.tick)⟩⟩
  by_cases same : x.author = m.owner
  · exact own x member same
  · rw [Clock.Counts, Clock.count_tick logs.tick, if_neg same] at counted
    exact counted

/-- After a local write its key has seen one write more, and every other key the same. -/
theorem Logs.seen_cons {w : Write α} (logs : Logs m m' w) (own : m.CountsOwn log) (k : String) :
    seen (w :: log) m'.version k =
      if k = w.key then insert w (seen log m.version k) else seen log m.version k := by
  have counted : m'.version.Counts w := Clock.counts_of_clock_le (le_of_eq logs.clock)
  rw [← logs.seen_eq own k]
  split
  next same =>
    subst same
    ext x
    simp only [seen, Set.mem_ofPred_eq, Set.mem_insert_iff, List.mem_cons]
    constructor
    · rintro ⟨rfl | member, rest⟩
      · exact .inl rfl
      · exact .inr ⟨member, rest⟩
    · rintro (rfl | ⟨member, rest⟩)
      · exact ⟨.inl rfl, rfl, counted⟩
      · exact ⟨.inr member, rest⟩
  next other =>
    ext x
    simp only [seen, Set.mem_ofPred_eq, List.mem_cons]
    constructor
    · rintro ⟨rfl | member, eq, rest⟩
      · exact absurd eq.symm other
      · exact ⟨member, eq, rest⟩
    · rintro ⟨member, rest⟩
      exact ⟨.inr member, rest⟩

theorem Tracks.put (hm : m.Tracks log) (hlog : Coherent log) (own : m.CountsOwn log)
    (put : m.put? key value wall = some m') {w : Write α} (at_key : w.key = key)
    (wrote : m'.Wrote w) : m'.Tracks (w :: log) := by
  have logs := logs_of_put put at_key wrote
  obtain ⟨-, -, registers⟩ := put?_spec put
  have elsewhere : ∀ k, k ≠ w.key → m'.register? k = m.register? k := fun k ne => by
    rw [registers, if_neg (at_key ▸ ne)]
  constructor
  · exact logs.closed hm
  · exact hm.positive.tick logs.tick
  · intro k found
    have ne : k ≠ w.key := by
      rintro rfl
      rw [wrote] at found
      contradiction
    rw [elsewhere k ne] at found
    rw [logs.seen_cons own, if_neg ne, hm.absent k found]
  · intro k r found
    by_cases same : k = w.key
    · subst same
      obtain rfl := Option.some.inj (wrote.symm.trans found)
      rw [logs.seen_cons own, if_pos rfl]
      intro n
      refine ⟨⟨w, Set.mem_insert _ _, rfl⟩, ?_⟩
      rintro _ ⟨x, rfl | ⟨member, _, counted⟩, rfl⟩
      · exact Nat.le_refl _
      · have known := hlog.clock_le hm.closed member counted
        have clock : w.register.clock = m'.version := logs.clock
        rw [clock]
        exact le_trans known (Clock.le_tick logs.tick) n
    · rw [elsewhere k same] at found
      rw [logs.seen_cons own, if_neg same]
      exact hm.joins k r found
  · intro k r found
    by_cases same : k = w.key
    · subst same
      obtain rfl := Option.some.inj (wrote.symm.trans found)
      have clock : w.register.clock = m'.version := logs.clock
      rw [clock]
      exact hm.positive.tick logs.tick
    · rw [elsewhere k same] at found
      exact hm.registers k r found

end LocalWrite

end RegisterMap

end ThreatGossip

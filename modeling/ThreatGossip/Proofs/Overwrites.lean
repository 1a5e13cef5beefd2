import ThreatGossip.Proofs.Versions
/-!
Overwriting. A write is stamped past the register that it overwrites, so a replica that hears of
both comes to show the same, whichever arrives first. Past the greatest timestamp there is none:
there the order of arrival may decide, and exactly when it does is said by `Clings`. A local write
of a map is past all that the map has seen, and nothing of that can undo it.
-/
namespace ThreatGossip

open Json (Document)

namespace Clock

variable {a b c : Clock} {p : NodeId}

/-- A clock adds nothing to a join with one that has all of its slots. -/
theorem Extends.join_join (h : b.Extends a) (c : Clock) : (c.join a).join b = c.join b := by
  have once : (c.join b).Extends ((c.join a).join b) := by
    apply isJoin_counts.least
    · exact isJoin_counts.least (extends_join_left c b) ((extends_join_right c b).trans h)
    · exact extends_join_right c b
  have twice : ((c.join a).join b).Extends (c.join b) := by
    apply isJoin_counts.least
    · exact (extends_join_left (c.join a) b).trans (extends_join_left c a)
    · exact extends_join_right (c.join a) b
  exact congrArg mk (isJoin_counts.antisymm once twice)

/-- A tick is of no use to a clock that is not ahead in the ticked slot. -/
theorem le_tick_iff (tick : a.tick? p = some b) (behind : c.count p ≤ a.count p) :
    c ≤ b ↔ c ≤ a := by
  constructor
  · intro le n
    have known := le n
    rw [count_tick tick] at known
    by_cases here : n = p
    · subst here
      exact behind
    · rw [if_neg here] at known
      exact known
  · exact fun le => le_trans le (le_tick tick)

end Clock

namespace Register

variable {α : Type}

section Merging

variable {a b : Register α}

/-- A register that knows all that another one knows, and more, is taken over. -/
theorem merge_of_lt (lt : a.clock < b.clock) :
    a.merge b = { b with clock := a.clock.join b.clock } := by
  have ahead : ¬b.clock.before a.clock = true := by
    rw [Clock.before_iff_lt]
    exact lt_asymm lt
  unfold merge
  rw [if_neg ahead, Clock.before_iff_lt.mpr lt, Bool.true_or, if_pos rfl]

/-- Of two registers of which neither knows less, the rank decides. -/
theorem merge_of_level (left : ¬a.clock < b.clock) (right : ¬b.clock < a.clock) :
    a.merge b = if b.outranks a then { b with clock := a.clock.join b.clock }
      else { a with clock := a.clock.join b.clock } := by
  rw [← Clock.before_iff_lt] at left right
  rw [Bool.not_eq_true] at left
  unfold merge
  rw [if_neg right, left, Bool.false_or]

/-- A register that the other one has gone past is discarded. -/
theorem merge_of_gt (gt : b.clock < a.clock) : a.merge b = a := (Includes.past gt).merge_eq

theorem clock_le_merge_left (a b : Register α) : a.clock ≤ (a.merge b).clock := by
  intro n
  rw [count_merge]
  exact Nat.le_max_left _ _

theorem clock_le_merge_right (a b : Register α) : b.clock ≤ (a.merge b).clock :=
  (includes_merge_right a b).clock_le

end Merging

section Overwriting

variable {old new other : Register α} {writer : NodeId} {value : α} {wall : Millis}

/-- What a write leaves. -/
theorem write?_spec (wrote : old.write? writer value wall = some new) :
    old.clock.tick? writer = some new.clock ∧ new.value = value ∧ new.writer = writer ∧
      new.timestamp = old.nextTimestamp wall := by
  obtain ⟨clock, tick, rfl⟩ := Option.map_eq_some_iff.mp wrote
  exact ⟨tick, rfl, rfl, rfl⟩

/-- A write outranks what it overwrites, unless that bears the greatest timestamp and its writer is
not below the new one. -/
theorem outranks_overwritten_iff (wrote : old.write? writer value wall = some new) :
    new.outranks old = true ↔ old.timestamp ≠ maxCount ∨ old.writer < writer := by
  obtain ⟨-, -, author, stamp⟩ := write?_spec wrote
  have top : maxCount.toNat = 18446744073709551615 := rfl
  have limit := old.timestamp.toNat_lt
  have limit' := new.timestamp.toNat_lt
  have full : old.timestamp = maxCount ↔ old.timestamp.toNat = maxCount.toNat :=
    UInt64.toNat_inj.symm
  have stamped : new.timestamp.toNat =
      max wall.toNat (min (old.timestamp.toNat + 1) maxCount.toNat) := by
    rw [stamp, nextTimestamp, toNat_max, toNat_satAdd, UInt64.toNat_one]
  rw [outranks_iff, rank, rank, Prod.Lex.toLex_lt_toLex, author, ne_eq, full]
  constructor
  · rintro (later | ⟨same, above⟩)
    · left
      change old.timestamp.toNat < new.timestamp.toNat at later
      omega
    · exact .inr above
  · rintro (room | above)
    · left
      change old.timestamp.toNat < new.timestamp.toNat
      omega
    · by_cases later : old.timestamp.toNat < new.timestamp.toNat
      · exact .inl later
      · right
        refine ⟨?_, above⟩
        change old.timestamp.toNat = new.timestamp.toNat
        omega

/-- Who writes at the greatest timestamp what stands there as his leaves nothing but a new clock. -/
theorem rewrite_of_full (wrote : old.write? writer value wall = some new)
    (full : old.timestamp = maxCount) (same_writer : writer = old.writer)
    (same_value : value = old.value) : new = { old with clock := new.clock } := by
  obtain ⟨-, content, author, stamp⟩ := write?_spec wrote
  have stays : new.timestamp = old.timestamp := by
    have top : maxCount.toNat = 18446744073709551615 := rfl
    have limit := wall.toNat_lt
    apply UInt64.toNat_inj.mp
    rw [stamp, nextTimestamp, toNat_max, toNat_satAdd, full]
    omega
  change mk new.value new.timestamp new.clock new.writer =
    mk old.value old.timestamp new.clock old.writer
  rw [content, author, stays, same_writer, same_value]

/-- A replica that hears of an overwritten register before it hears of the write clings to it: the
write could not be stamped past the register, which the replica had neither seen nor overwritten. -/
structure Clings (other old : Register α) (writer : NodeId) (value : α) : Prop where
  full : old.timestamp = maxCount
  level : writer ≤ old.writer
  unseen : other.clock.descends old.clock = false
  unknown : old.clock.descends other.clock = false
  prefers : old.outranks other = true
  changed : writer ≠ old.writer ∨ value ≠ old.value

section Orders

variable (wrote : old.write? writer value wall = some new)
include wrote

theorem clock_lt_of_write : old.clock < new.clock := Clock.lt_tick (write?_spec wrote).1

/-- Where the write is known, what it overwrote is discarded. -/
theorem merge_overwritten : (other.merge new).merge old = other.merge new :=
  merge_of_gt (lt_of_lt_of_le (clock_lt_of_write wrote) (clock_le_merge_right other new))

/-- Hearing of the overwritten register first leaves no trace in the clock. -/
theorem join_clock_merge :
    (other.merge old).clock.join new.clock = other.clock.join new.clock := by
  have extends_old := Clock.extends_tick (write?_spec wrote).1
  unfold Register.merge
  split
  next => rfl
  next =>
    split
    next => exact extends_old.join_join other.clock
    next => exact extends_old.join_join other.clock

/-- A replica and a register of which neither has seen the other: what keeps it from clinging. -/
theorem not_clings_iff_of_apart (unknown : ¬other.clock ≤ old.clock)
    (unseen : ¬old.clock ≤ other.clock) : ¬other.Clings old writer value ↔
      new.outranks old = true ∨ old.outranks other = false ∨
        writer = old.writer ∧ value = old.value := by
  rw [outranks_overwritten_iff wrote]
  constructor
  · intro free
    by_contra open_case
    push Not at open_case
    obtain ⟨⟨full, level⟩, prefers, changed⟩ := open_case
    refine free ⟨full, level, Clock.descends_eq_false_iff.mpr unseen,
      Clock.descends_eq_false_iff.mpr unknown, Bool.eq_true_of_not_eq_false prefers, ?_⟩
    by_cases same : writer = old.writer
    · exact .inr (changed same)
    · exact .inl same
  · intro decided clings
    rcases decided with (room | above) | below | ⟨same_writer, same_value⟩
    · exact room clings.full
    · exact absurd above (not_lt_of_ge clings.level)
    · exact absurd clings.prefers (Bool.eq_false_iff.mp below)
    · exact clings.changed.elim (· same_writer) (· same_value)

variable (behind : other.clock.count writer ≤ old.clock.count writer)
include behind

theorem not_new_le_merge : ¬new.clock ≤ (other.merge old).clock := by
  intro le
  have counted := le writer
  rw [Clock.count_tick (write?_spec wrote).1, if_pos rfl, count_merge] at counted
  omega

theorem not_new_le : ¬new.clock ≤ other.clock := fun le =>
  not_new_le_merge wrote behind (le_trans le (clock_le_merge_left other old))

/-- A replica whose register the overwritten one descends takes the write over either way. -/
theorem merge_merge_of_le (known : other.clock ≤ old.clock) :
    (other.merge old).merge new = other.merge new := by
  have later := clock_lt_of_write wrote
  have first : other.clock < new.clock := lt_of_le_of_lt known later
  have second : (other.merge old).clock < new.clock := by
    refine lt_of_le_not_ge (fun n => ?_) (not_new_le_merge wrote behind)
    rw [count_merge]
    exact Nat.max_le.mpr ⟨first.le n, later.le n⟩
  rw [merge_of_lt first, merge_of_lt second, join_clock_merge wrote]

/-- A replica that has not heard all that the overwriting author knew lets the ranks decide. -/
theorem merge_new_of_not_le (unknown : ¬other.clock ≤ old.clock) :
    other.merge new = if new.outranks other then { new with clock := other.clock.join new.clock }
      else { other with clock := other.clock.join new.clock } := by
  have tick := (write?_spec wrote).1
  apply merge_of_level
  · exact fun lt => unknown ((Clock.le_tick_iff tick behind).mp lt.le)
  · exact fun gt => not_new_le wrote behind gt.le

theorem merge_merge_of_not_le (unknown : ¬other.clock ≤ old.clock) :
    (other.merge old).merge new = if new.outranks (other.merge old)
      then { new with clock := other.clock.join new.clock }
      else { other.merge old with clock := other.clock.join new.clock } := by
  have tick := (write?_spec wrote).1
  rw [← join_clock_merge wrote]
  apply merge_of_level
  · intro lt
    have below := le_trans (clock_le_merge_left other old) lt.le
    exact unknown ((Clock.le_tick_iff tick behind).mp below)
  · exact fun gt => not_new_le_merge wrote behind gt.le

/-- Between a replica and a register of which neither has seen the other the ranks decide, first
that of the register and then that of the write. -/
theorem merge_merge_eq_iff_of_apart (unknown : ¬other.clock ≤ old.clock)
    (unseen : ¬old.clock ≤ other.clock) :
    (other.merge old).merge new = other.merge new ↔ new.outranks old = true ∨
      old.outranks other = false ∨ writer = old.writer ∧ value = old.value := by
  obtain ⟨-, content, author, -⟩ := write?_spec wrote
  rw [merge_merge_of_not_le wrote behind unknown, merge_new_of_not_le wrote behind unknown,
    merge_of_level (fun lt => unknown lt.le) (fun gt => unseen gt.le)]
  cases prefers : old.outranks other with
  | false =>
      rw [if_neg Bool.false_ne_true]
      exact iff_of_true rfl (.inr (.inl rfl))
  | true =>
      rw [if_pos rfl]
      change (if new.outranks old then _ else _) = _ ↔ _
      cases wins : new.outranks old with
      | true =>
          have above := (outranks_iff.mp prefers).trans (outranks_iff.mp wins)
          rw [if_pos rfl, if_pos (outranks_iff.mpr above)]
          exact iff_of_true rfl (.inl rfl)
      | false =>
          rw [if_neg Bool.false_ne_true]
          constructor
          · intro same
            split at same
            next =>
              right; right
              exact ⟨author.symm.trans (congrArg Register.writer same).symm,
                content.symm.trans (congrArg Register.value same).symm⟩
            next =>
              have ranks := congrArg Register.rank same
              change old.rank = other.rank at ranks
              exact absurd (outranks_iff.mp prefers) (ranks ▸ lt_irrefl _)
          · rintro (wins' | weaker | ⟨same_writer, same_value⟩)
            · contradiction
            · contradiction
            · have full : old.timestamp = maxCount := by
                rw [← Bool.not_eq_true, outranks_overwritten_iff wrote, not_or, not_not] at wins
                exact wins.1
              have rewritten := rewrite_of_full wrote full same_writer same_value
              have outranks : new.outranks other = true := by
                rw [rewritten]
                exact prefers
              rw [if_pos outranks]
              exact congrArg (fun r => { r with clock := other.clock.join new.clock })
                rewritten.symm

end Orders

/-- A register and a write over it end the same in whichever order a replica merges them, if it has
seen no more of the writer's events than the register has: value, timestamp, writer and clock are
those that the write alone leads to. Only where a replica clings to the register, which takes the
greatest timestamp, does the order show. -/
theorem overwrites_prevail (old other : Register α) (writer : NodeId) (value : α) (wall : Millis)
    (room : old.clock.get writer ≠ maxCount)
    (behind : other.clock.get writer ≤ old.clock.get writer) :
    ∃ new, old.write? writer value wall = some new ∧
      (other.merge new).merge old = other.merge new ∧
      ((other.merge old).merge new = (other.merge new).merge old ↔
        ¬other.Clings old writer value) := by
  obtain ⟨ticked, tick⟩ := Clock.exists_tick room
  obtain ⟨new, wrote⟩ : ∃ new, old.write? writer value wall = some new :=
    ⟨_, Option.map_eq_some_iff.mpr ⟨ticked, tick, rfl⟩⟩
  have behind : other.clock.count writer ≤ old.clock.count writer :=
    UInt64.le_iff_toNat_le.mp behind
  have late : (other.merge new).merge old = other.merge new := merge_overwritten wrote
  refine ⟨new, wrote, late, ?_⟩
  rw [late]
  by_cases known : other.clock ≤ old.clock
  · apply iff_of_true (merge_merge_of_le wrote behind known)
    intro clings
    exact Clock.descends_eq_false_iff.mp clings.unknown known
  · by_cases seen : old.clock ≤ other.clock
    · rw [merge_of_gt (lt_of_le_not_ge seen known)]
      apply iff_of_true rfl
      intro clings
      exact Clock.descends_eq_false_iff.mp clings.unseen seen
    · rw [merge_merge_eq_iff_of_apart wrote behind known seen,
        not_clings_iff_of_apart wrote known seen]

/-- A register at the last timestamp but one. -/
def late : Register String := ⟨"malicious", maxCount - 1, .ofList [("p", 1)], "z"⟩

/-- A register that knows nothing of the other one, and has a smaller rank. -/
def rival : Register String := ⟨"unknown", maxCount - 1, .ofList [("q", 1)], "q"⟩

/-- The greatest timestamp is still past the last but one. -/
theorem late_overwrite_prevails : late.clock.get "a" ≠ maxCount ∧
    rival.clock.get "a" ≤ late.clock.get "a" ∧ ∃ new, late.write? "a" "benign" 9 = some new ∧
      (rival.merge late).merge new = (rival.merge new).merge late ∧
      ((rival.merge new).merge late).value = "benign" := by
  have room : late.clock.get "a" ≠ maxCount := by decide
  have behind : rival.clock.get "a" ≤ late.clock.get "a" := by decide
  obtain ⟨new, wrote, alone, orders⟩ :=
    overwrites_prevail late rival "a" "benign" 9 room behind
  have free : ¬rival.Clings late "a" "benign" := fun clings => absurd clings.full (by decide)
  refine ⟨room, behind, new, wrote, orders.mpr free, ?_⟩
  obtain rfl := Option.some.inj (wrote.symm.trans rfl)
  rw [alone]
  decide

/-- At the greatest timestamp one replica shows what was overwritten and another the overwrite. -/
theorem full_overwrite_splits : ∃ old new other : Register String,
    old.clock.get "a" ≠ maxCount ∧ old.write? "a" "benign" 9 = some new ∧
      other.clock.get "a" ≤ old.clock.get "a" ∧
      ((other.merge old).merge new).value = "malicious" ∧
      ((other.merge new).merge old).value = "benign" :=
  ⟨{ late with timestamp := maxCount }, _, rival, by decide, rfl, by decide, by decide, by decide⟩

end Overwriting

end Register

namespace RegisterMap

variable {α : Type} {m m' : RegisterMap α} {k : String} {r : Register (Option α)}

/-- What a map may take in: another map or a delta. -/
inductive Intake (α : Type)
  | merge (o : RegisterMap α)
  | apply (d : Delta α)

def Intake.registers : Intake α → Registers α
  | .merge o => o.registers
  | .apply d => d.changes

def takeIn (m : RegisterMap α) : Intake α → RegisterMap α
  | .merge o => m.merge o
  | .apply d => m.apply d

theorem register?_takeIn (m : RegisterMap α) (i : Intake α) (k : String) :
    (m.takeIn i).register? k = (m.absorb i.registers).register? k := by
  cases i <;> rfl

/-- A register stays as it is when others that it has gone past are taken in. -/
theorem register?_takeIn_of_past {i : Intake α} (found : m.register? k = some r)
    (past : ∀ b, i.registers.get? k = some b → b.clock < r.clock) :
    (m.takeIn i).register? k = some r := by
  rw [register?_takeIn, register?_absorb, found]
  cases brought : i.registers.get? k with
  | none => rfl
  | some b => exact congrArg some (Register.merge_of_gt (past b brought))

theorem register?_foldl_takeIn {is : List (Intake α)} (found : m.register? k = some r)
    (past : ∀ i ∈ is, ∀ b, i.registers.get? k = some b → b.clock < r.clock) :
    (is.foldl takeIn m).register? k = some r := by
  induction is generalizing m with
  | nil => exact found
  | cons i rest ih =>
      obtain ⟨first, others⟩ := List.forall_mem_cons.mp past
      apply ih _ others
      exact register?_takeIn_of_past found first

/-- What a local write makes of a map, with the register that it leaves under the key. -/
structure Stores (m : RegisterMap α) (key : String) (value : Option α) (m' : RegisterMap α)
    (r : Register (Option α)) : Prop where
  tick : m.version.tick? m.owner = some m'.version
  stands : m'.register? key = some r
  holds : r.value = value
  writer : r.writer = m.owner
  clock : r.clock = m'.version
  reads : m'.get? key = value
  others : ∀ k, k ≠ key → m'.register? k = m.register? k

theorem put?_stores (room : m.version.get m.owner ≠ maxCount) (key : String) (value : Option α)
    (wall : Millis) : ∃ m' r, m.put? key value wall = some m' ∧ m.Stores key value m' r := by
  obtain ⟨version, ticked⟩ := Clock.exists_tick room
  obtain ⟨m', put, -⟩ := exists_put ticked key value wall
  obtain ⟨tick, -, registers⟩ := put?_spec put
  have stands := registers key
  rw [if_pos rfl] at stands
  refine ⟨m', _, put, tick, stands, rfl, rfl, rfl, ?_, fun k other => ?_⟩
  · rw [get?, stands]
    rfl
  · rw [registers, if_neg other]

/-- A local write holds against all that the map had seen. -/
theorem local_write_holds :
    (∀ (α : Type) (m : RegisterMap α),
      (∀ k r, m.register? k = some r → m.version.descends r.clock = true) →
      m.version.get m.owner ≠ maxCount → ∀ key value wall, ∃ m' r,
        m.put? key value wall = some m' ∧ m.putChecked key value wall = .ok m' ∧
        m.Stores key value m' r ∧
        ∀ is : List (Intake α),
          (∀ i ∈ is, ∀ k b, i.registers.get? k = some b → m.version.descends b.clock = true) →
          (is.foldl takeIn m').register? key = some r ∧ (is.foldl takeIn m').get? key = value) ∧
    ∀ (id : NodeId) (n : Node), Node.Reached id n → ∀ k r,
      n.threats.register? k = some r → n.version.descends r.clock = true := by
  constructor
  · intro α m dated room key value wall
    obtain ⟨m', r, put, stores⟩ := put?_stores room key value wall
    have dated : m.Dated := fun k r found => Clock.descends_iff.mp (dated k r found)
    have checked : m.putChecked key value wall = .ok m' := by
      rw [dated.putChecked_eq, put]
      rfl
    refine ⟨m', r, put, checked, stores, fun is stale => ?_⟩
    have stays : (is.foldl takeIn m').register? key = some r := by
      apply register?_foldl_takeIn stores.stands
      intro i member b brought
      rw [stores.clock]
      have seen := Clock.descends_iff.mp (stale i member key b brought)
      exact lt_of_le_of_lt seen (Clock.lt_tick stores.tick)
    refine ⟨stays, ?_⟩
    rw [get?, stays]
    exact stores.holds
  · intro id n reached k r found
    exact Clock.descends_iff.mpr (reached.dated k r found)

/-- A node that has taken in a deletion of the greatest timestamp writes over it, and neither that
deletion nor the map as it was brings the deletion back. -/
theorem stray_deletion_stays_overwritten : ∃ n m', Node.Reached "b" n ∧
    n.threats.register? "k" ≠ none ∧ n.threats.get? "k" = none ∧
    n.threats.put? "k" (some (.ofTree (.boolean true))) 0 = some m' ∧
    ([.apply Node.stray, .merge n.threats].foldl takeIn m').get? "k" =
      some (.ofTree (.boolean true)) := by
  have reached : Node.Reached "b" _ := .single (.occurs (.mergeSnapshot
    ⟨⟨"z", .empty, Node.stray.changes⟩, .empty, .empty "z"⟩ 1) rfl)
  have covered := local_write_holds.2 "b" _ reached
  obtain ⟨m', r, put, -, -, holds⟩ := local_write_holds.1 Document _ covered (by decide) "k"
    (some (.ofTree (.boolean true))) 0
  refine ⟨_, m', reached, by decide, by decide, put, (holds _ ?_).2⟩
  intro i member k b brought
  rcases List.mem_pair.mp member with rfl | rfl
  · obtain ⟨-, rfl⟩ := Prod.mk.inj (List.mem_singleton.mp (SortedMap.get?_eq_some_iff.mp brought))
    decide
  · exact covered k b brought

end RegisterMap

end ThreatGossip

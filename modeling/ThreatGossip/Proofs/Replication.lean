import Mathlib.Logic.Function.Basic
import Mathlib.Logic.Relation
import ThreatGossip.Proofs.Winners
/-!
Runs of replicas of a register map. Replicas write, merge any past copy of one another, and apply
deltas that were computed against a clock they know; copies and deltas may come late, twice or not
at all. In every run a register is the summary of the writes in the causal history of its replica:
it shows the greatest one, and its clock is the join of all of theirs.
-/
namespace ThreatGossip.Replication

variable {α : Type}

/-- A replica with its causal history: the writes that it made or that some replica had whose state
it took in. -/
structure Replica (α : Type) where
  map : RegisterMap α
  history : Set (Write α)

/-- All replicas, every state that any of them has been in, and all writes ever made. -/
structure Config (α : Type) where
  replicas : NodeId → Replica α
  copies : Set (Replica α)
  log : List (Write α)

/-- A replica that has seen nothing. -/
def Replica.initial (id : NodeId) : Replica α := ⟨.empty id, ∅⟩

namespace Config

def initial : Config α := ⟨Replica.initial, Set.range Replica.initial, []⟩

/-- A replica passes into a new state. -/
def become (c : Config α) (id : NodeId) (next : Replica α) : Config α :=
  { c with replicas := Function.update c.replicas id next, copies := insert next c.copies }

/-- A replica passes into a new state by a write of its own. -/
def record (c : Config α) (id : NodeId) (m : RegisterMap α) (w : Write α) : Config α :=
  { c.become id ⟨m, insert w (c.replicas id).history⟩ with log := w :: c.log }

end Config

/-- One step of a run. A write with no value deletes. -/
inductive Step : Config α → Config α → Prop
  | put {c : Config α} (id : NodeId) (key : String) (value : Option α) (wall : Millis)
      {m : RegisterMap α} {r : Register (Option α)} :
      (c.replicas id).map.put? key value wall = some m → m.register? key = some r →
      Step c (c.record id m ⟨key, r⟩)
  | merge {c : Config α} (id : NodeId) {copy : Replica α} : copy ∈ c.copies →
      Step c (c.become id
        ⟨(c.replicas id).map.merge copy.map, (c.replicas id).history ∪ copy.history⟩)
  | apply {c : Config α} (id : NodeId) {copy : Replica α} (since : Clock) (now : Millis) :
      copy ∈ c.copies → (c.replicas id).map.version.descends since = true →
      Step c (c.become id
        ⟨(c.replicas id).map.apply (copy.map.delta since now),
          (c.replicas id).history ∪ copy.history⟩)

inductive Reachable : Config α → Prop
  | initial : Reachable Config.initial
  | step {c d : Config α} : Reachable c → Step c d → Reachable d

/-- No replica has ever stored the greatest timestamp. -/
def Config.Unsaturated (c : Config α) : Prop :=
  ∀ copy ∈ c.copies, ∀ k r, copy.map.register? k = some r → r.timestamp ≠ maxCount

/-- The replica has absorbed exactly its history, which is what its version counts. -/
structure Replica.Knows (copy : Replica α) (log : List (Write α)) : Prop where
  tracks : copy.map.Tracks log
  history : ∀ w, w ∈ copy.history ↔ w ∈ log ∧ copy.map.version.Counts w

/-- What holds in every state of a run. -/
structure Invariant (c : Config α) : Prop where
  coherent : Coherent c.log
  knows : ∀ copy ∈ c.copies, copy.Knows c.log
  current : ∀ id, c.replicas id ∈ c.copies ∧ (c.replicas id).map.owner = id ∧
    (c.replicas id).map.CountsOwn c.log
  stored : ∀ w ∈ c.log, ∃ copy ∈ c.copies, copy.map.register? w.key = some w.register
  greatest : Unsaturated c.log → Ranked c.log ∧ ∀ copy ∈ c.copies, copy.map.Shows c.log

theorem Invariant.initial : Invariant (Config.initial : Config α) where
  coherent := .nil
  knows := by
    rintro _ ⟨id, rfl⟩
    refine ⟨RegisterMap.tracks_empty id [] fun _ member => absurd member List.not_mem_nil, ?_⟩
    intro w
    exact ⟨fun member => absurd member (Set.notMem_empty w),
      fun both => absurd both.1 List.not_mem_nil⟩
  current := fun id => ⟨⟨id, rfl⟩, rfl, fun _ member => absurd member List.not_mem_nil⟩
  stored := fun _ member => absurd member List.not_mem_nil
  greatest := by
    refine fun _ => ⟨fun _ member => absurd member List.not_mem_nil, ?_⟩
    rintro _ ⟨id, rfl⟩
    exact RegisterMap.shows_empty id []

section Knowledge

variable {copy : Replica α} {log : List (Write α)} {w : Write α}

/-- A new write is unknown where it is not counted. -/
theorem Replica.Knows.cons (h : copy.Knows log) (fresh : ¬copy.map.version.Counts w) :
    copy.Knows (w :: log) := by
  refine ⟨h.tracks.cons fresh, fun x => ?_⟩
  rw [h.history, List.mem_cons]
  constructor
  · rintro ⟨logged, counted⟩
    exact ⟨.inr logged, counted⟩
  · rintro ⟨rfl | logged, counted⟩
    · exact absurd counted fresh
    · exact ⟨logged, counted⟩

/-- A local write adds itself to the history. -/
theorem Replica.Knows.put (h : copy.Knows log) (coherent : Coherent log)
    (own : copy.map.CountsOwn log) {key : String} {value : Option α} {wall : Millis}
    {m : RegisterMap α} (put : copy.map.put? key value wall = some m) (at_key : w.key = key)
    (wrote : m.Wrote w) : Replica.Knows ⟨m, insert w copy.history⟩ (w :: log) := by
  have logs := RegisterMap.logs_of_put put at_key wrote
  refine ⟨h.tracks.put coherent own put at_key wrote, fun x => ?_⟩
  have counted : m.version.Counts w := Clock.counts_of_clock_le (le_of_eq logs.clock)
  -- Old writes are counted as before, because the tick counts only the new one.
  have same := Set.ext_iff.mp (logs.seen_eq own x.key) x
  simp only [seen, Set.mem_ofPred_eq, true_and] at same
  change x = w ∨ x ∈ copy.history ↔ x ∈ w :: log ∧ m.version.Counts x
  rw [h.history, ← same, List.mem_cons]
  constructor
  · rintro (rfl | ⟨logged, old⟩)
    · exact ⟨.inl rfl, counted⟩
    · exact ⟨.inr logged, old⟩
  · rintro ⟨rfl | logged, old⟩
    · exact .inl rfl
    · exact .inr ⟨logged, old⟩

end Knowledge

theorem Invariant.put {c : Config α} (inv : Invariant c) {id : NodeId} {key : String}
    {value : Option α} {wall : Millis} {m : RegisterMap α} {r : Register (Option α)}
    (put : (c.replicas id).map.put? key value wall = some m) (wrote : m.register? key = some r) :
    Invariant (c.record id m ⟨key, r⟩) := by
  obtain ⟨present, named, own⟩ := inv.current id
  have knows := inv.knows _ present
  have logs := RegisterMap.logs_of_put (w := ⟨key, r⟩) put rfl wrote
  have fresh : ∀ copy ∈ c.copies, ¬copy.map.version.Counts (⟨key, r⟩ : Write α) :=
    fun copy member => logs.fresh own (inv.knows copy member).tracks.closed
  obtain ⟨-, kept, -⟩ := RegisterMap.put?_spec put
  constructor
  · exact logs.coherent inv.coherent knows.tracks own
  · rintro copy (rfl | member)
    · exact knows.put inv.coherent own put rfl wrote
    · exact (inv.knows copy member).cons (fresh copy member)
  · refine (Function.forall_update_iff _ fun other (copy : Replica α) =>
      copy ∈ insert _ c.copies ∧ copy.map.owner = other ∧ copy.map.CountsOwn (_ :: c.log)).mpr ?_
    refine ⟨⟨.inl rfl, kept.trans named, ?_⟩, fun other ne => ?_⟩
    · intro w member author
      rcases List.mem_cons.mp member with rfl | old
      · exact Clock.counts_of_clock_le (le_of_eq logs.clock)
      · exact (own w old (author.trans kept)).mono (Clock.le_tick logs.tick)
    · obtain ⟨member, owner, counts⟩ := inv.current other
      refine ⟨.inr member, owner, fun w logged author => ?_⟩
      rcases List.mem_cons.mp logged with rfl | old
      · exact absurd ((author.symm.trans (logs.author.trans named)).symm.trans owner).symm ne
      · exact counts w old author
  · intro w member
    rcases List.mem_cons.mp member with rfl | old
    · exact ⟨_, .inl rfl, wrote⟩
    · obtain ⟨copy, member, found⟩ := inv.stored w old
      exact ⟨copy, .inr member, found⟩
  · intro bounded
    have before := bounded.mono fun _ member => List.mem_cons_of_mem _ member
    obtain ⟨ranked, shows⟩ := inv.greatest before
    have mine := shows _ present
    refine ⟨RegisterMap.ranked_cons ranked mine inv.coherent knows.tracks own before put rfl wrote,
      ?_⟩
    rintro copy (rfl | member)
    · exact mine.put knows.tracks own before put rfl wrote
    · exact (shows copy member).cons (fresh copy member)

/-- A replica may take in registers of a copy, if they are all that it lacks. -/
theorem Invariant.become {c : Config α} (inv : Invariant c) {id : NodeId} {copy : Replica α}
    (member : copy ∈ c.copies) {m : RegisterMap α} {rs : Registers α}
    (owner : m.owner = (c.replicas id).map.owner) (tracks : m.Tracks c.log)
    (carries : RegisterMap.Carries rs copy.map (c.replicas id).map.version)
    (copied : ∀ k r, rs.get? k = some r → copy.map.register? k = some r)
    (registers : ∀ k, m.register? k = ((c.replicas id).map.absorb rs).register? k)
    (counts : ∀ n, m.version.count n =
      max ((c.replicas id).map.version.count n) (copy.map.version.count n)) :
    Invariant (c.become id ⟨m, (c.replicas id).history ∪ copy.history⟩) := by
  obtain ⟨present, named, own⟩ := inv.current id
  have mine := inv.knows _ present
  have theirs := inv.knows _ member
  have grow : (c.replicas id).map.version ≤ m.version := fun n => by
    rw [counts]
    exact Nat.le_max_left _ _
  constructor
  · exact inv.coherent
  · rintro other (rfl | old)
    · refine ⟨tracks, fun w => ?_⟩
      change w ∈ (c.replicas id).history ∪ copy.history ↔ w ∈ c.log ∧ m.version.Counts w
      rw [Set.mem_union, mine.history, theirs.history, Clock.counts_sup_iff counts, and_or_left]
    · exact inv.knows other old
  · refine (Function.forall_update_iff _ fun other (copy : Replica α) =>
      copy ∈ insert _ c.copies ∧ copy.map.owner = other ∧ copy.map.CountsOwn c.log).mpr ?_
    refine ⟨⟨.inl rfl, owner.trans named, ?_⟩, fun other _ => ?_⟩
    · exact fun w logged author => (own w logged (author.trans owner)).mono grow
    · obtain ⟨member, rest⟩ := inv.current other
      exact ⟨.inr member, rest⟩
  · intro w logged
    obtain ⟨stored, old, found⟩ := inv.stored w logged
    exact ⟨stored, .inr old, found⟩
  · intro bounded
    obtain ⟨ranked, shows⟩ := inv.greatest bounded
    refine ⟨ranked, ?_⟩
    rintro other (rfl | old)
    · exact RegisterMap.Shows.union inv.coherent ranked mine.tracks theirs.tracks
        (shows _ present) (shows _ member) carries copied registers counts
    · exact shows other old

theorem Invariant.merge {c : Config α} (inv : Invariant c) {id : NodeId} {copy : Replica α}
    (member : copy ∈ c.copies) :
    Invariant (c.become id
      ⟨(c.replicas id).map.merge copy.map, (c.replicas id).history ∪ copy.history⟩) := by
  have mine := (inv.knows _ (inv.current id).1).tracks
  have theirs := (inv.knows _ member).tracks
  have same := RegisterMap.SameClocks.refl copy.map
  exact inv.become member rfl (mine.merge same theirs inv.coherent)
    (same.carries (c.replicas id).map.version) (fun _ _ found => found) (fun _ => rfl)
    (RegisterMap.count_version_merge same theirs inv.coherent)

theorem Invariant.apply {c : Config α} (inv : Invariant c) {id : NodeId} {copy : Replica α}
    {since : Clock} (now : Millis) (member : copy ∈ c.copies)
    (known : (c.replicas id).map.version.descends since = true) :
    Invariant (c.become id
      ⟨(c.replicas id).map.apply (copy.map.delta since now),
        (c.replicas id).history ∪ copy.history⟩) := by
  have mine := (inv.knows _ (inv.current id).1).tracks
  have theirs := (inv.knows _ member).tracks
  have carries := (RegisterMap.carries_delta copy.map since now).mono (Clock.descends_iff.mp known)
  exact inv.become member rfl (mine.absorb theirs inv.coherent carries) carries
    (fun _ _ found => RegisterMap.delta_changes_some found) (fun _ => rfl)
    (carries.count_version theirs inv.coherent)

theorem Invariant.step {c d : Config α} (inv : Invariant c) (step : Step c d) : Invariant d := by
  cases step with
  | put id key value wall put wrote => exact inv.put put wrote
  | merge id member => exact inv.merge member
  | apply id since now member known => exact inv.apply now member known

theorem Reachable.invariant {c : Config α} (run : Reachable c) : Invariant c := by
  induction run with
  | initial => exact .initial
  | step _ step ih => exact ih.step step

theorem log_mono {c d : Config α} (steps : Relation.ReflTransGen Step c d) :
    ∀ w ∈ c.log, w ∈ d.log := by
  induction steps with
  | refl => exact fun _ member => member
  | tail _ step ih =>
      intro w member
      cases step with
      | put => exact List.mem_cons_of_mem _ (ih w member)
      | merge => exact ih w member
      | apply => exact ih w member

theorem Invariant.unsaturated {c : Config α} (inv : Invariant c) (bounded : c.Unsaturated) :
    Unsaturated c.log := by
  intro w member
  obtain ⟨copy, old, found⟩ := inv.stored w member
  exact bounded copy old w.key w.register found

/-- The writes to a key in a replica's history. -/
def Replica.writesTo (copy : Replica α) (key : String) : Set (Write α) :=
  {w | w ∈ copy.history ∧ w.key = key}

theorem Replica.Knows.seen_eq {copy : Replica α} {log : List (Write α)} (knows : copy.Knows log)
    (key : String) : seen log copy.map.version key = copy.writesTo key := by
  ext w
  simp only [seen, Replica.writesTo, Set.mem_ofPred_eq, knows.history]
  constructor
  · rintro ⟨logged, same, counted⟩
    exact ⟨⟨logged, counted⟩, same⟩
  · rintro ⟨⟨logged, counted⟩, same⟩
    exact ⟨logged, same, counted⟩

section Summary

variable {c : Config α}

theorem Invariant.summarizes (inv : Invariant c) (bounded : c.Unsaturated) {copy : Replica α}
    (member : copy ∈ c.copies) {k : String} {r : Register (Option α)}
    (found : copy.map.register? k = some r) : r.Summarizes (copy.writesTo k) := by
  have knows := inv.knows copy member
  rw [← knows.seen_eq]
  exact ((inv.greatest (inv.unsaturated bounded)).2 copy member).summarizes knows.tracks found

theorem Invariant.isSome_iff (inv : Invariant c) {copy : Replica α} (member : copy ∈ c.copies)
    (k : String) : (copy.map.register? k).isSome ↔ ∃ w ∈ copy.history, w.key = k := by
  have knows := inv.knows copy member
  rw [knows.tracks.isSome_iff, knows.seen_eq]
  exact Iff.rfl

/-- A write that an overwriting or deleting author had seen is never shown again where that
author's write is known. -/
theorem Invariant.overwritten (inv : Invariant c) (bounded : c.Unsaturated) {d w : Write α}
    (made : d ∈ c.log) (older : w ∈ c.log) (key : w.key = d.key) (ne : w ≠ d)
    (had_seen : d.clock.Counts w) {copy : Replica α} (member : copy ∈ c.copies)
    (known : d ∈ copy.history) {r : Register (Option α)}
    (found : copy.map.register? d.key = some r) : w.register.rank < r.rank := by
  have later := (inv.greatest (inv.unsaturated bounded)).1 d made w older key ne had_seen
  have below := (inv.summarizes bounded member found).shows.rank_le (x := d) ⟨known, rfl⟩
  exact lt_of_lt_of_le (Prod.Lex.toLex_lt_toLex.mpr (.inl later)) below

theorem Invariant.registers_eq (inv : Invariant c) (bounded : c.Unsaturated) {a b : Replica α}
    (ha : a ∈ c.copies) (hb : b ∈ c.copies) (alike : a.map.version.alike b.map.version = true) :
    a.map.registers = b.map.registers := by
  obtain ⟨-, shows⟩ := inv.greatest (inv.unsaturated bounded)
  exact RegisterMap.registers_eq (inv.knows a ha).tracks (inv.knows b hb).tracks (shows a ha)
    (shows b hb) (Clock.alike_iff.mp alike)

end Summary

/-- In every run without overflow a replica has a register for exactly the keys of its history, and
the register shows the greatest of the writes to its key under the join of their clocks. A write
that the author of a later write or deletion had seen is never shown again where the later one is
known, and replicas with equal versions have equal registers. -/
theorem registers_summarize_histories {c : Config α} (run : Reachable c)
    (bounded : c.Unsaturated) :
    (∀ id k, ((c.replicas id).map.register? k).isSome ↔
      ∃ w ∈ (c.replicas id).history, w.key = k) ∧
    (∀ id k r, (c.replicas id).map.register? k = some r →
      r.Summarizes ((c.replicas id).writesTo k)) ∧
    (∀ (before : Config α) (author : NodeId) (key : String) (value : Option α) (wall : Millis)
      (m : RegisterMap α) (d : Register (Option α)), Reachable before →
      (before.replicas author).map.put? key value wall = some m → m.register? key = some d →
      Relation.ReflTransGen Step (before.record author m ⟨key, d⟩) c →
      ∀ w ∈ (before.replicas author).history, w.key = key →
      ∀ id, (⟨key, d⟩ : Write α) ∈ (c.replicas id).history →
      ∀ r, (c.replicas id).map.register? key = some r → w.register.rank < r.rank) ∧
    (∀ i j, (c.replicas i).map.version.alike (c.replicas j).map.version →
      (c.replicas i).map.registers = (c.replicas j).map.registers) := by
  have inv := run.invariant
  refine ⟨fun id k => inv.isSome_iff (inv.current id).1 k,
    fun id k r found => inv.summarizes bounded (inv.current id).1 found, ?_,
    fun i j alike => inv.registers_eq bounded (inv.current i).1 (inv.current j).1 alike⟩
  intro before author key value wall m d earlier put wrote steps w seen_before same id known r found
  have old := earlier.invariant
  have knows := old.knows _ (old.current author).1
  have logs := RegisterMap.logs_of_put (w := ⟨key, d⟩) put rfl wrote
  obtain ⟨logged, counted⟩ := (knows.history w).mp seen_before
  have kept := log_mono steps
  have ne : w ≠ ⟨key, d⟩ := by
    rintro rfl
    exact logs.fresh (old.current author).2.2 knows.tracks.closed counted
  have had_seen : (⟨key, d⟩ : Write α).clock.Counts w :=
    logs.clock ▸ counted.mono (Clock.le_tick logs.tick)
  exact inv.overwritten bounded (kept _ List.mem_cons_self)
    (kept _ (List.mem_cons_of_mem _ logged)) same ne had_seen (inv.current id).1 known found

section Comeback

theorem unsaturated_initial : (Config.initial : Config α).Unsaturated := by
  rintro copy ⟨id, rfl⟩ k r found
  nomatch found

theorem unsaturated_become {c : Config α} (bounded : c.Unsaturated) (id : NodeId)
    {next : Replica α} (fine : next.map.registers.values.all (·.timestamp ≠ maxCount) = true) :
    (c.become id next).Unsaturated := by
  rintro copy (rfl | old) k r found
  · have member := RegisterMap.mem_values_iff.mpr ⟨k, found⟩
    exact of_decide_eq_true (List.all_eq_true.mp fine r member)
  · exact bounded copy old k r found

theorem unsaturated_record {c : Config α} (bounded : c.Unsaturated) (id : NodeId)
    {m : RegisterMap α} {w : Write α}
    (fine : m.registers.values.all (·.timestamp ≠ maxCount) = true) :
    (c.record id m w).Unsaturated :=
  unsaturated_become bounded id fine

/-- A value as its writer keeps it. -/
def written : RegisterMap Nat :=
  ⟨"a", ⟨⟨[("a", 1)], by decide⟩⟩,
    ⟨[("k", ⟨some 7, 5, ⟨⟨[("a", 1)], by decide⟩⟩, "a"⟩)], by decide⟩⟩

/-- The deletion of that value, by a node whose wall clock is behind. -/
def deleted : RegisterMap Nat :=
  ⟨"b", ⟨⟨[("a", 1), ("b", 1)], by decide⟩⟩,
    ⟨[("k", ⟨none, 6, ⟨⟨[("a", 1), ("b", 1)], by decide⟩⟩, "b"⟩)], by decide⟩⟩

/-- A value is written at one node, merged and deleted at another one, and the deletion comes back
as a delta. -/
theorem deletion_comes_back : ∃ c : Config Nat, Reachable c ∧ c.Unsaturated ∧
    (c.replicas "a").map.get? "k" = none ∧
    ∀ r, (c.replicas "a").map.register? "k" = some r →
      r.Summarizes ((c.replicas "a").writesTo "k") := by
  have first : Reachable (Config.initial.record "a" written ⟨"k", _⟩) :=
    .step .initial (.put "a" "k" (some 7) 5 (m := written) rfl rfl)
  have second := first.step (.merge "b" (Set.mem_insert _ _))
  have third := second.step (.put "b" "k" none 3 (m := deleted) rfl rfl)
  have run := third.step (.apply "a" written.version 0 (Set.mem_insert _ _) rfl)
  refine
    have bounded := ?_
    ⟨_, run, bounded, rfl, (registers_summarize_histories run bounded).2.1 "a" "k"⟩
  refine unsaturated_become (unsaturated_record (unsaturated_become (unsaturated_record
    unsaturated_initial "a" ?_) "b" ?_) "b" ?_) "a" ?_
  all_goals rfl

end Comeback

end ThreatGossip.Replication

import Mathlib.Data.Set.Card
import Mathlib.Order.Interval.Finset.Nat
import ThreatGossip.Proofs.Overwrites
import ThreatGossip.Proofs.Replication
/-!
Runs of replicas of one register. All start as copies of one new register; they write, each under
its own name, and merge any past copy of one another. A register by itself is a map with one key:
every run of registers is mirrored by a run of such maps, with the same clocks and histories. So a
register, too, shows the greatest write of its causal history under the counts of all of them.
-/
namespace ThreatGossip

variable {α : Type}

namespace Register

/-- The register as that of a key whose value is not deleted. -/
def live (r : Register α) : Register (Option α) := ⟨some r.value, r.timestamp, r.clock, r.writer⟩

theorem live_injective : Function.Injective (live : Register α → Register (Option α)) := by
  intro a b same
  obtain ⟨value, timestamp, clock, writer⟩ := a
  obtain ⟨value', timestamp', clock', writer'⟩ := b
  simpa [live] using same

theorem live_merge (a b : Register α) : (a.merge b).live = a.live.merge b.live := by
  unfold merge
  rw [apply_ite live, apply_ite live]
  rfl

end Register

namespace SingleRegister

/-- A replica with its causal history: the writes that it made or that some replica had whose
register it merged, each as the register that it left. -/
structure Replica (α : Type) where
  register : Register α
  history : Set (Register α)

/-- All replicas, every state that any of them has been in, and all writes ever made. -/
structure Config (α : Type) where
  replicas : NodeId → Replica α
  copies : Set (Replica α)
  log : List (Register α)

namespace Config

/-- All replicas are copies of one new register. -/
def initial (owner : NodeId) (value : α) : Config α :=
  ⟨fun _ => ⟨.initial owner value, ∅⟩, {⟨.initial owner value, ∅⟩}, []⟩

/-- A replica passes into a new state. -/
def become (c : Config α) (id : NodeId) (next : Replica α) : Config α :=
  { c with replicas := Function.update c.replicas id next, copies := insert next c.copies }

/-- A replica passes into a new state by a write of its own. -/
def record (c : Config α) (id : NodeId) (r : Register α) : Config α :=
  { c.become id ⟨r, insert r (c.replicas id).history⟩ with log := r :: c.log }

/-- No write has been stamped with the greatest timestamp. -/
def Unsaturated (c : Config α) : Prop := ∀ w ∈ c.log, w.timestamp ≠ maxCount

end Config

inductive Step : Config α → Config α → Prop
  | write {c : Config α} (id : NodeId) (value : α) (wall : Millis) {r : Register α} :
      (c.replicas id).register.write? id value wall = some r → Step c (c.record id r)
  | merge {c : Config α} (id : NodeId) {copy : Replica α} : copy ∈ c.copies →
      Step c (c.become id
        ⟨(c.replicas id).register.merge copy.register, (c.replicas id).history ∪ copy.history⟩)

inductive Reachable (owner : NodeId) (value : α) : Config α → Prop
  | initial : Reachable owner value (.initial owner value)
  | step {c d : Config α} : Reachable owner value c → Step c d → Reachable owner value d

/-- The register is settled by the history: it bears what the greatest write left, or what it began
with where there is none, and its clock counts the writes of each replica. -/
structure Replica.Reflects (copy : Replica α) (first : Register α) : Prop where
  untouched : copy.history = ∅ → copy.register = first
  greatest : copy.history.Nonempty → ∃ w ∈ copy.history, copy.register.value = w.value ∧
    copy.register.timestamp = w.timestamp ∧ copy.register.writer = w.writer ∧
    ∀ x ∈ copy.history, x ≠ w → w.outranks x = true
  counts : ∀ n, {w ∈ copy.history | w.writer = n}.encard = copy.register.clock.count n

variable {owner : NodeId} {value : α}

theorem Reachable.present {c : Config α} (run : Reachable owner value c) :
    ∀ id, c.replicas id ∈ c.copies := by
  induction run with
  | initial => exact fun _ => Set.mem_singleton _
  | @step c _ _ step ih =>
      cases step with
      | write | merge =>
          refine (Function.forall_update_iff _ fun _ copy => copy ∈ insert _ c.copies).mpr ?_
          exact ⟨Set.mem_insert _ _, fun other _ => Set.mem_insert_of_mem _ (ih other)⟩

section Mirroring

/-- A write to a register by itself is one to the only key of a map. -/
def asWrite (r : Register α) : Write α := ⟨"", r.live⟩

theorem asWrite_injective : Function.Injective (asWrite : Register α → Write α) := by
  intro a b same
  exact Register.live_injective (Write.mk.inj same).2

/-- The replica of a map stands for a replica of the register. Before the first write there is no
register in the map. -/
structure Replica.Mirrored (copy : Replica α) (first : Register α)
    (image : Replication.Replica α) : Prop where
  version : image.map.version = copy.register.clock
  register : image.map.register? "" = some copy.register.live ∨
    image.map.register? "" = none ∧ copy.register = first
  history : image.history = asWrite '' copy.history

theorem mirrored_initial (id : NodeId) :
    Replica.Mirrored ⟨.initial owner value, ∅⟩ (.initial owner value) (.initial id) :=
  ⟨rfl, .inr ⟨rfl, rfl⟩, (Set.image_empty _).symm⟩

variable {copy other : Replica α} {image image' : Replication.Replica α}

/-- A write to the register is a write to the map. -/
theorem Replica.Mirrored.write (h : copy.Mirrored (.initial owner value) image) {id : NodeId}
    (named : image.map.owner = id) {new : α} {wall : Millis} {r : Register α}
    (wrote : copy.register.write? id new wall = some r) :
    ∃ m, image.map.put? "" (some new) wall = some m ∧ m.register? "" = some r.live ∧
      Replica.Mirrored ⟨r, insert r copy.history⟩ (.initial owner value)
        ⟨m, insert (asWrite r) image.history⟩ := by
  subst named
  obtain ⟨ticked, tick, rfl⟩ := Option.map_eq_some_iff.mp wrote
  rw [← h.version] at tick
  obtain ⟨m, put, rfl⟩ := RegisterMap.exists_put tick "" (some new) wall
  obtain ⟨-, -, registers⟩ := RegisterMap.put?_spec put
  have stored := registers ""
  rw [if_pos rfl] at stored
  have stands : m.register? "" =
      some (copy.register.stamp image.map.owner new wall m.version).live := by
    rw [stored]
    rcases h.register with found | ⟨missing, begun⟩
    · rw [found]
      rfl
    · rw [missing, begun]
      rfl
  refine ⟨m, put, stands, rfl, .inl stands, ?_⟩
  change insert _ image.history = asWrite '' insert _ copy.history
  rw [Set.image_insert_eq, h.history]

/-- A register that has been written to is past one that has not. -/
theorem initial_lt_of_register {log : List (Write α)} {m : RegisterMap α} (tracks : m.Tracks log)
    (coherent : Coherent log) {k : String} {r : Register (Option α)}
    (found : m.register? k = some r) : Clock.empty < r.clock := by
  obtain ⟨w, member⟩ := (tracks.joins k r found).nonempty
  apply lt_of_le_not_ge (Clock.empty_le _)
  intro unwritten
  have counted := le_trans ((tracks.joins k r found).clock_le member) unwritten w.author
  exact absurd (coherent.numbered w member.1) (Nat.not_lt.mpr counted)

/-- A new register is replaced by any that has been written to. -/
theorem initial_merge {r : Register α} (past : Clock.empty < r.clock)
    (positive : r.clock.Positive) : (Register.initial owner value).merge r = r := by
  have joined : Clock.empty.join r.clock = r.clock :=
    (Clock.positive_empty.join positive).eq_of_count positive fun n => by simp
  rw [Register.merge_of_lt past]
  exact congrArg (fun c => { r with clock := c }) joined

/-- A merge of registers is a merge of maps. -/
theorem Replica.Mirrored.merge {log : List (Write α)} (coherent : Coherent log)
    (h : copy.Mirrored (.initial owner value) image) (tracks : image.map.Tracks log)
    (h' : other.Mirrored (.initial owner value) image') (tracks' : image'.map.Tracks log) :
    Replica.Mirrored ⟨copy.register.merge other.register, copy.history ∪ other.history⟩
      (.initial owner value)
      ⟨image.map.merge image'.map, image.history ∪ image'.history⟩ := by
  have same := RegisterMap.SameClocks.refl image'.map
  have positive : copy.register.clock.Positive := h.version ▸ tracks.positive
  have positive' : other.register.clock.Positive := h'.version ▸ tracks'.positive
  constructor
  · refine (tracks.merge same tracks' coherent).positive.eq_of_count
      (Register.positive_merge positive positive') fun n => ?_
    rw [RegisterMap.count_version_merge same tracks' coherent, Register.count_merge, h.version,
      h'.version]
  · have stands := RegisterMap.register?_merge image.map image'.map ""
    rcases h.register with found | ⟨missing, begun⟩
    · left
      rcases h'.register with found' | ⟨missing', begun'⟩
      · rw [found, found'] at stands
        rw [stands, Register.live_merge]
      · have past := initial_lt_of_register tracks coherent found
        rw [found, missing'] at stands
        rw [stands, begun', Register.merge_of_gt past]
    · rcases h'.register with found' | ⟨missing', begun'⟩
      · left
        have past : Clock.empty < other.register.clock :=
          initial_lt_of_register tracks' coherent found'
        rw [missing, found'] at stands
        rw [stands, begun, initial_merge past positive']
      · right
        rw [missing, missing'] at stands
        refine ⟨stands, ?_⟩
        rw [begun, begun', (Register.Includes.refl _).merge_eq]
  · change image.history ∪ image'.history = asWrite '' (copy.history ∪ other.history)
    rw [Set.image_union, h.history, h'.history]

/-- The run of maps stands for the run of registers. -/
structure Config.Mirrored (c : Config α) (first : Register α) (d : Replication.Config α) :
    Prop where
  replicas : ∀ id, (c.replicas id).Mirrored first (d.replicas id)
  copies : ∀ copy ∈ c.copies, ∃ image ∈ d.copies, copy.Mirrored first image
  log : d.log = c.log.map asWrite

variable {c : Config α} {d : Replication.Config α}

/-- A replica and its image pass into their next states together. -/
theorem Config.Mirrored.become {first : Register α} (h : c.Mirrored first d) (id : NodeId)
    (next : copy.Mirrored first image) :
    (c.become id copy).Mirrored first (d.become id image) := by
  constructor
  · intro other
    change (Function.update c.replicas id copy other).Mirrored first
      (Function.update d.replicas id image other)
    rw [Function.update_apply, Function.update_apply]
    split
    next => exact next
    next => exact h.replicas other
  · rintro old (rfl | member)
    · exact ⟨image, Set.mem_insert _ _, next⟩
    · obtain ⟨image', there, mirrored⟩ := h.copies old member
      exact ⟨image', Set.mem_insert_of_mem _ there, mirrored⟩
  · exact h.log

theorem Config.Mirrored.step {c' : Config α} (h : c.Mirrored (.initial owner value) d)
    (inv : Replication.Invariant d) (step : Step c c') :
    ∃ d', Replication.Step d d' ∧ c'.Mirrored (.initial owner value) d' := by
  cases step with
  | @write id new wall r wrote =>
      obtain ⟨-, named, -⟩ := inv.current id
      obtain ⟨m, put, stored, next⟩ := (h.replicas id).write named wrote
      refine ⟨_, .put id "" (some new) wall put stored, ?_⟩
      obtain ⟨replicas, copies, -⟩ := h.become id next
      exact ⟨replicas, copies, congrArg _ h.log⟩
  | @merge id copy member =>
      obtain ⟨image, there, mirrored⟩ := h.copies copy member
      have mine := (inv.knows _ (inv.current id).1).tracks
      have theirs := (inv.knows image there).tracks
      refine ⟨_, .merge id there, ?_⟩
      exact h.become id ((h.replicas id).merge inv.coherent mine mirrored theirs)

/-- Every run of registers is mirrored by one of maps. -/
theorem Reachable.mirrored (run : Reachable owner value c) :
    ∃ d, Replication.Reachable d ∧ c.Mirrored (.initial owner value) d := by
  induction run with
  | initial =>
      refine ⟨_, .initial, mirrored_initial, ?_, rfl⟩
      rintro _ rfl
      exact ⟨_, Set.mem_range_self owner, mirrored_initial owner⟩
  | step _ step ih =>
      obtain ⟨d, reached, mirrored⟩ := ih
      obtain ⟨d', next, mirrored'⟩ := mirrored.step reached.invariant step
      exact ⟨d', reached.step next, mirrored'⟩

end Mirroring

section Reflection

variable {c : Config α} {copy : Replica α} {image : Replication.Replica α}

/-- The version of a replica of a map counts its history. -/
theorem encard_writes_by {log : List (Write α)} (knows : image.Knows log)
    (coherent : Coherent log) (n : NodeId) :
    {w ∈ image.history | w.author = n}.encard = image.map.version.count n := by
  have numbers : Write.number '' {w ∈ image.history | w.author = n} =
      Finset.Icc 1 (image.map.version.count n) := by
    ext i
    rw [Finset.mem_coe, Finset.mem_Icc, Set.mem_image]
    constructor
    · rintro ⟨w, ⟨member, author⟩, rfl⟩
      obtain ⟨logged, counted⟩ := (knows.history w).mp member
      rw [Clock.Counts, author] at counted
      exact ⟨coherent.numbered w logged, counted⟩
    · rintro ⟨pos, le⟩
      obtain ⟨w, logged, author, number, -⟩ := knows.tracks.closed n i pos le
      have counted : image.map.version.Counts w := by
        rw [Clock.Counts, author, number]
        exact le
      exact ⟨w, ⟨(knows.history w).mpr ⟨logged, counted⟩, author⟩, number⟩
  have distinct : Set.InjOn Write.number {w ∈ image.history | w.author = n} := by
    rintro w ⟨member, author⟩ x ⟨other, author'⟩ same
    exact coherent.unique w ((knows.history w).mp member).1 x ((knows.history x).mp other).1
      (author.trans author'.symm) same
  rw [← distinct.encard_image, numbers, Set.encard_coe_eq_coe_finsetCard, Nat.card_Icc,
    Nat.add_sub_cancel]

/-- A register reflects its history if its image shows and counts it. -/
theorem Replica.Mirrored.reflects {log : List (Write α)} (coherent : Coherent log)
    (h : copy.Mirrored (.initial owner value) image) (knows : image.Knows log)
    (shows : image.map.Shows log) : copy.Reflects (.initial owner value) := by
  have seen_eq : seen log image.map.version "" = asWrite '' copy.history := by
    rw [knows.seen_eq, ← h.history]
    ext w
    refine and_iff_left_of_imp fun member => ?_
    rw [h.history] at member
    obtain ⟨r, -, rfl⟩ := member
    rfl
  have stands : (image.map.register? "").isSome ↔ copy.history.Nonempty := by
    rw [knows.tracks.isSome_iff, seen_eq, Set.image_nonempty]
  constructor
  · intro untouched
    rcases h.register with found | ⟨-, begun⟩
    · rw [found] at stands
      exact absurd untouched (stands.mp rfl).ne_empty
    · exact begun
  · intro touched
    rcases h.register with found | ⟨missing, -⟩
    · have shown := shows "" _ found
      rw [seen_eq] at shown
      obtain ⟨_, ⟨w, member, rfl⟩, bears, top⟩ := shown
      refine ⟨w, member, Option.some.inj bears.value, bears.timestamp, bears.writer, ?_⟩
      intro x other ne
      have below := top (asWrite x) ⟨x, other, rfl⟩ (asWrite_injective.ne ne)
      exact Register.outranks_iff.mpr below
    · rw [missing] at stands
      exact absurd (stands.mpr touched) Bool.false_ne_true
  · intro n
    have by_author : {w ∈ image.history | w.author = n} =
        asWrite '' {w ∈ copy.history | w.writer = n} := by
      rw [h.history]
      ext w
      constructor
      · rintro ⟨⟨r, member, rfl⟩, author⟩
        exact ⟨r, ⟨member, author⟩, rfl⟩
      · rintro ⟨r, ⟨member, author⟩, rfl⟩
        exact ⟨⟨r, member, rfl⟩, author⟩
    rw [← h.version, ← encard_writes_by knows coherent n, by_author,
      asWrite_injective.encard_image]

/-- Registers that reflect the same history are the same. -/
theorem Replica.Reflects.unique {first : Register α} {a b : Replica α} (ha : a.Reflects first)
    (hb : b.Reflects first) (pa : a.register.clock.Positive) (pb : b.register.clock.Positive)
    (same : a.history = b.history) : a.register = b.register := by
  rcases a.history.eq_empty_or_nonempty with untouched | touched
  · rw [ha.untouched untouched, hb.untouched (same ▸ untouched)]
  · obtain ⟨w, member, value, timestamp, writer, top⟩ := ha.greatest touched
    obtain ⟨x, other, value', timestamp', writer', top'⟩ := hb.greatest (same ▸ touched)
    have agree : w = x := by
      by_contra ne
      have above := Register.outranks_iff.mp (top x (same ▸ other) (Ne.symm ne))
      have below := Register.outranks_iff.mp (top' w (same ▸ member) ne)
      exact lt_asymm above below
    subst agree
    have mine : a.register.live.IsOf (asWrite w) :=
      ⟨congrArg some value, timestamp, writer⟩
    have theirs : b.register.live.IsOf (asWrite w) :=
      ⟨congrArg some value', timestamp', writer'⟩
    apply Register.live_injective
    apply mine.eq_of_clock theirs
    apply pa.eq_of_count pb
    intro n
    have counted := ha.counts n
    rw [same, hb.counts n, Nat.cast_inj] at counted
    exact counted.symm

/-- What every replica and every copy comes to in a run without overflow. -/
theorem Reachable.reflects (run : Reachable owner value c) (bounded : c.Unsaturated)
    (member : copy ∈ c.copies) :
    copy.Reflects (.initial owner value) ∧ copy.register.clock.Positive := by
  obtain ⟨d, reached, mirrored⟩ := run.mirrored
  obtain ⟨image, there, stands⟩ := mirrored.copies copy member
  have inv := reached.invariant
  have below : ThreatGossip.Unsaturated d.log := by
    rw [mirrored.log]
    intro w logged
    obtain ⟨r, made, rfl⟩ := List.mem_map.mp logged
    exact bounded r made
  have knows := inv.knows image there
  have shows := (inv.greatest below).2 image there
  exact ⟨stands.reflects inv.coherent knows shows, stands.version ▸ knows.tracks.positive⟩

end Reflection

/-- In every run without overflow a register is settled by its causal history: it bears the value,
timestamp and writer of the greatest write there, and each slot of its clock counts the writes of
that replica. Two replicas with the same history are the same, however they came by it. -/
theorem register_reflects_history {c : Config α} (run : Reachable owner value c)
    (bounded : c.Unsaturated) :
    (∀ id, c.replicas id ∈ c.copies) ∧
    (∀ copy ∈ c.copies, copy.Reflects (.initial owner value)) ∧
    ∀ d : Config α, Reachable owner value d → d.Unsaturated →
      ∀ a ∈ c.copies, ∀ b ∈ d.copies, a.history = b.history → a.register = b.register := by
  refine ⟨run.present, fun copy member => (run.reflects bounded member).1, ?_⟩
  intro d run' bounded' a ha b hb same
  obtain ⟨mine, positive⟩ := run.reflects bounded ha
  obtain ⟨theirs, positive'⟩ := run'.reflects bounded' hb
  exact mine.unique theirs positive positive' same

section Crossing

/-- A write, and two that overwrite it at once: both are stamped just past it. -/
def overwritten : Register Nat := ⟨7, 5, .ofList [("a", 1)], "a"⟩

def winner : Register Nat := ⟨9, 6, .ofList [("a", 1), ("b", 1)], "b"⟩

def loser : Register Nat := ⟨8, 6, .ofList [("a", 2)], "a"⟩

/-- Two replicas whose wall clocks run behind overwrite a value at once and merge each other's
writes: both come to show that of the greater writer. -/
theorem crossing_writes_agree : ∃ c : Config Nat, Reachable "x" 0 c ∧ c.Unsaturated ∧
    (c.replicas "a").register.value = 9 ∧ (c.replicas "a").Reflects (.initial "x" 0) ∧
    (c.replicas "a").register = (c.replicas "b").register := by
  have wrote : Reachable "x" 0 ((Config.initial "x" 0).record "a" overwritten) :=
    .step .initial (.write "a" 7 5 rfl)
  have merged := wrote.step (.merge "b" (Set.mem_insert _ _))
  have crossed := (merged.step (.write "b" 9 3 (r := winner) rfl)).step
    (.write "a" 8 2 (r := loser) rfl)
  have run := (crossed.step (.merge "a" (.inr (Set.mem_insert _ _)))).step
    (.merge "b" (.inr (Set.mem_insert _ _)))
  have bounded : ∀ w ∈ [loser, winner, overwritten], w.timestamp ≠ maxCount := by decide
  obtain ⟨present, settled, agree⟩ := register_reflects_history run bounded
  refine ⟨_, run, bounded, rfl, settled _ (present "a"), ?_⟩
  exact agree _ run bounded _ (present "a") _ (present "b") (Set.union_comm _ _)

end Crossing

end SingleRegister

end ThreatGossip

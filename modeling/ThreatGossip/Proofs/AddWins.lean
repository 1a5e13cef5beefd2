import ThreatGossip.Proofs.Lattices
import ThreatGossip.Proofs.StateBased
/-!
Observed-remove sets let additions win. However replicas insert, erase and merge, an item stands in
a set exactly when some insertion of it is known there that no known removal of it knew.
-/
namespace ThreatGossip

namespace ObservedSet

/-- What a replica does with its set. -/
inductive Operation (α : Type)
  | insert (item : α) (tag : String)
  | erase (item : α)
  deriving DecidableEq

section Histories

open StateBased

variable {ι α : Type} {log : List (Edit ι (Operation α))} {history : Set (Edit ι (Operation α))}
  {item : α} {tag : String}

/-- Some insertion of the item in the history is one that no removal of it there knew. -/
def Survives (history : Set (Edit ι (Operation α))) (item : α) : Prop :=
  ∃ e ∈ history, (∃ tag, e.operation = .insert item tag) ∧
    ∀ r ∈ history, r.operation = .erase item → e.serial ∉ r.knew

/-- No tag is used for two insertions of one item. -/
def TagsUnique (log : List (Edit ι (Operation α))) : Prop :=
  ∀ e ∈ log, ∀ f ∈ log, ∀ item tag, e.operation = .insert item tag →
    f.operation = .insert item tag → e = f

/-- It was a removal of the item that knew an insertion under the tag. -/
def Cancels (log : List (Edit ι (Operation α))) (item : α) (tag : String)
    (r : Edit ι (Operation α)) : Prop :=
  r.operation = .erase item ∧ ∃ e ∈ log, e.operation = .insert item tag ∧ e.serial ∈ r.knew

/-- What is new makes no difference to an operation that did not know it. -/
theorem cancels_cons {e r : Edit ι (Operation α)} (fresh : e.serial ∉ r.knew) :
    Cancels (e :: log) item tag r ↔ Cancels log item tag r := by
  unfold Cancels
  simp [fresh]

end Histories

variable {α : Type} [Ord α]

section Tags

variable {a b : SortedMap α (SortedSet String)} {item other : α} {tag : String}

/-- An item bears a tag on one side of a set. -/
def Bears (side : SortedMap α (SortedSet String)) (item : α) (tag : String) : Prop :=
  (tagsIn side item).contains tag = true

/-- No item is listed on one side of a set without a tag. -/
def Tagged (side : SortedMap α (SortedSet String)) : Prop :=
  ∀ item tags, side.get? item = some tags → ∃ tag, tags.contains tag = true

theorem bears_iff {side : SortedMap α (SortedSet String)} :
    Bears side item tag ↔ ∃ tags, side.get? item = some tags ∧ tags.contains tag = true := by
  unfold Bears tagsIn
  cases side.get? item <;> simp

theorem Tagged.below (ha : Tagged a) (sub : ∀ item tag, Bears a item tag → Bears b item tag) :
    TagsBelow a b := by
  intro item mine found
  obtain ⟨tag, held⟩ := ha item mine found
  obtain ⟨theirs, there, -⟩ := bears_iff.mp (sub item tag (bears_iff.mpr ⟨mine, found, held⟩))
  refine ⟨theirs, there, fun mark _ listed => ?_⟩
  have borne : Bears a item mark :=
    bears_iff.mpr ⟨mine, found, SortedMap.contains_iff.mpr ⟨_, listed⟩⟩
  obtain ⟨tags, again, holds⟩ := bears_iff.mp (sub item mark borne)
  obtain rfl := Option.some.inj (there.symm.trans again)
  obtain ⟨value, known⟩ := SortedMap.contains_iff.mp holds
  exact ⟨value, known, trivial⟩

variable [Std.TransOrd α] [Std.LawfulEqOrd α] [DecidableEq α]

theorem bears_unionWith :
    Bears (a.unionWith SortedSet.union b) item tag ↔ Bears a item tag ∨ Bears b item tag := by
  unfold Bears tagsIn
  rw [SortedMap.get?_unionWith]
  cases a.get? item <;> cases b.get? item <;> simp

theorem Tagged.unionWith (ha : Tagged a) (hb : Tagged b) :
    Tagged (a.unionWith SortedSet.union b) := by
  intro item tags found
  rw [SortedMap.get?_unionWith] at found
  cases left : a.get? item with
  | none =>
      rw [left] at found
      exact hb item tags found
  | some mine =>
      obtain ⟨tag, held⟩ := ha item mine left
      cases right : b.get? item with
      | none =>
          rw [left, right] at found
          exact ha item tags (left.trans found)
      | some theirs =>
          rw [left, right] at found
          obtain rfl := Option.some.inj found
          exact ⟨tag, SortedSet.contains_union.mpr (.inl held)⟩

theorem Tagged.insert (ha : Tagged a) {tags : SortedSet String} (held : tags.contains tag = true) :
    Tagged (a.insert item tags) := by
  intro other found known
  rw [SortedMap.get?_insert] at known
  split at known
  next =>
    obtain rfl := Option.some.inj known
    exact ⟨tag, held⟩
  next => exact ha other found known

/-- Where no item lacks tags, the tags say all. -/
theorem Tagged.eq (ha : Tagged a) (hb : Tagged b)
    (same : ∀ item tag, Bears a item tag ↔ Bears b item tag) : a = b :=
  isJoin_tags.antisymm (ha.below fun item tag => (same item tag).mp)
    (hb.below fun item tag => (same item tag).mpr)

end Tags

section Operations

variable {s : ObservedSet α} {item other : α} {tag mark : String}

theorem contains_iff :
    s.contains item = true ↔ ∃ tag, Bears s.added item tag ∧ ¬Bears s.removed item tag := by
  unfold contains Bears
  rw [List.any_eq_true]
  simp only [SortedMap.mem_keys_iff, Bool.not_eq_true', Bool.not_eq_true]

theorem ascending_toList (s : ObservedSet α) : s.toList.Pairwise fun x y => compare x y = .lt :=
  (List.pairwise_map.mpr s.added.ascending).filter _

theorem mem_toList_iff [Std.LawfulEqOrd α] : item ∈ s.toList ↔ s.contains item = true := by
  unfold toList
  rw [List.mem_filter, SortedMap.mem_keys_iff, and_iff_right_iff_imp]
  intro present
  obtain ⟨tag, added, -⟩ := contains_iff.mp present
  obtain ⟨tags, found, -⟩ := bears_iff.mp added
  exact SortedMap.contains_iff.mpr ⟨tags, found⟩

variable [Std.TransOrd α]

theorem added_erase (s : ObservedSet α) (item : α) : (s.erase item).added = s.added := by
  unfold erase
  split <;> rfl

variable [Std.LawfulEqOrd α] [DecidableEq α]

theorem bears_insert : Bears (s.insert item tag).added other mark ↔
    other = item ∧ mark = tag ∨ Bears s.added other mark := by
  unfold Bears insert
  dsimp only
  rw [tagsIn, SortedMap.get?_insert]
  by_cases same : other = item
  · subst same
    simp
  · simp [same, tagsIn]

theorem bears_erase : Bears (s.erase item).removed other mark ↔
    other = item ∧ Bears s.added item mark ∨ Bears s.removed other mark := by
  unfold erase
  cases found : s.added.get? item with
  | none => simp [bears_iff, found]
  | some tags =>
      dsimp only
      unfold Bears
      rw [tagsIn, SortedMap.get?_insert]
      by_cases same : other = item
      · subst same
        simp [tagsIn, found, or_comm]
      · simp [same, tagsIn]

/-- An item that is removed bears the tags that it was inserted with. -/
theorem Tagged.erase (removed : Tagged s.removed) (added : Tagged s.added) (item : α) :
    Tagged (s.erase item).removed := by
  unfold ObservedSet.erase
  split
  next => exact removed
  next tags found =>
    obtain ⟨tag, held⟩ := added item tags found
    exact removed.insert (SortedSet.contains_union.mpr (.inr held))

/-- To remove an item that is not there changes nothing: its tags are all removed already. -/
theorem Tagged.erase_eq_self (added : Tagged s.added) (absent : s.contains item = false) :
    s.erase item = s := by
  unfold ObservedSet.erase
  cases found : s.added.get? item with
  | none => rfl
  | some tags =>
      have gone : ∀ mark, tags.contains mark = true → Bears s.removed item mark := by
        intro mark listed
        by_contra kept
        have present := contains_iff.mpr ⟨mark, bears_iff.mpr ⟨tags, found, listed⟩, kept⟩
        exact Bool.false_ne_true (absent.symm.trans present)
      -- Without a first tag the item might be new among the removed ones.
      obtain ⟨tag, held⟩ := added item tags found
      obtain ⟨marks, before, -⟩ := bears_iff.mp (gone tag held)
      have covered : marks.union tags = marks := isJoin_union.join_eq_left fun mark _ listed => by
        obtain ⟨marks', again, there⟩ :=
          bears_iff.mp (gone mark (SortedMap.contains_iff.mpr ⟨_, listed⟩))
        obtain rfl := Option.some.inj (before.symm.trans again)
        obtain ⟨u, known⟩ := SortedMap.contains_iff.mp there
        exact ⟨u, known, trivial⟩
      have same : s.removed.insert item marks = s.removed := SortedMap.eq_of_get? fun other => by
        rw [SortedMap.get?_insert]
        split
        next here => exact (here ▸ before).symm
        next => rfl
      simp only [tagsIn, before, Option.getD_some, covered, same]

end Operations

section Runs

open StateBased

/-- The tags of a set are what its history says. -/
structure Records {ι : Type} (log : List (Edit ι (Operation α)))
    (copy : Replica ι (ObservedSet α) (Operation α)) : Prop where
  added : ∀ item tag, Bears copy.state.added item tag ↔
    ∃ e ∈ copy.history, e.operation = .insert item tag
  removed : ∀ item tag, Bears copy.state.removed item tag ↔
    ∃ r ∈ copy.history, Cancels log item tag r
  taggedAdded : Tagged copy.state.added
  taggedRemoved : Tagged copy.state.removed

variable {ι : Type} {c : Config ι (ObservedSet α) (Operation α)}
  {a b : Replica ι (ObservedSet α) (Operation α)} {log : List (Edit ι (Operation α))}

/-- A set goes on to record its history while others perform operations. -/
theorem Records.others (h : Records c.log a) (inv : Invariant c) (member : a ∈ c.copies) (i : ι)
    (op : Operation α) : Records (c.edit i op :: c.log) a := by
  refine ⟨h.added, fun item tag => ?_, h.taggedAdded, h.taggedRemoved⟩
  rw [h.removed]
  refine exists_congr fun r => and_congr_right fun held => ?_
  exact (cancels_cons (inv.not_mem_knew (inv.logged a member r held) i op)).symm

/-- When tags are not used twice, what the tags of a set say of an item is whether some insertion of
it survives. -/
theorem Records.contains_iff (h : Records c.log a) (inv : Invariant c) (member : a ∈ c.copies)
    (unique : TagsUnique c.log) (item : α) :
    a.state.contains item = true ↔ Survives a.history item := by
  rw [ObservedSet.contains_iff]
  constructor
  · rintro ⟨tag, added, kept⟩
    obtain ⟨e, held, inserts⟩ := (h.added item tag).mp added
    refine ⟨e, held, ⟨tag, inserts⟩, fun r removal erases known => ?_⟩
    exact kept ((h.removed item tag).mpr
      ⟨r, removal, erases, e, inv.logged a member e held, inserts, known⟩)
  · rintro ⟨e, held, ⟨tag, inserts⟩, survives⟩
    refine ⟨tag, (h.added item tag).mpr ⟨e, held, inserts⟩, fun removed => ?_⟩
    obtain ⟨r, removal, erases, f, logged, inserts', known⟩ := (h.removed item tag).mp removed
    obtain rfl := unique e (inv.logged a member e held) f logged item tag inserts inserts'
    exact survives r removal erases known

variable [Std.TransOrd α]

/-- Sets that start empty at every site. -/
def design (ι α : Type) [Ord α] [Std.TransOrd α] : Design ι (ObservedSet α) (Operation α) where
  start _ := .empty
  perform s
    | .insert item tag => s.insert item tag
    | .erase item => s.erase item
  merge := merge

theorem Records.blank (i : ι) : Records [] ((design ι α).blank i) := by
  constructor
  · intro item tag
    exact ⟨fun borne => (nomatch borne), fun ⟨e, held, _⟩ => held.elim⟩
  · intro item tag
    exact ⟨fun borne => (nomatch borne), fun ⟨r, held, _⟩ => held.elim⟩
  · exact fun item tags found => nomatch found
  · exact fun item tags found => nomatch found

variable [Std.LawfulEqOrd α] [DecidableEq α]

theorem Records.insert {i : ι} (h : Records c.log (c.replicas i)) (inv : Invariant c) (item : α)
    (tag : String) : Records (c.edit i (.insert item tag) :: c.log)
      ((design ι α).performed (c.replicas i) (c.edit i (.insert item tag))) := by
  have kept := h.others inv (inv.present i) i (.insert item tag)
  constructor
  · intro other mark
    change Bears (ObservedSet.insert _ item tag).added other mark ↔ ∃ e ∈ Insert.insert _ _, _
    rw [bears_insert, h.added, Set.exists_mem_insert]
    change _ ↔ Operation.insert item tag = .insert other mark ∨ _
    rw [Operation.insert.injEq, eq_comm, eq_comm (a := tag)]
  · intro other mark
    change Bears (c.replicas i).state.removed other mark ↔ ∃ r ∈ Insert.insert _ _, _
    rw [kept.removed, Set.exists_mem_insert]
    refine ⟨.inr, fun either => either.resolve_left fun cancels => ?_⟩
    nomatch cancels.1
  · have marked : ((tagsIn (c.replicas i).state.added item).add tag).contains tag = true :=
      SortedSet.contains_add.mpr (.inl rfl)
    exact h.taggedAdded.insert marked
  · exact h.taggedRemoved

theorem Records.erase {i : ι} (h : Records c.log (c.replicas i)) (inv : Invariant c) (item : α) :
    Records (c.edit i (.erase item) :: c.log)
      ((design ι α).performed (c.replicas i) (c.edit i (.erase item))) := by
  have kept := h.others inv (inv.present i) i (.erase item)
  -- The tags that are taken away are those of the insertions that the replica knows.
  have cancels : ∀ mark, Bears (c.replicas i).state.added item mark ↔
      Cancels (c.edit i (.erase item) :: c.log) item mark (c.edit i (.erase item)) := by
    intro mark
    rw [h.added]
    constructor
    · rintro ⟨e, held, inserts⟩
      exact ⟨rfl, e, List.mem_cons_of_mem _ (inv.logged _ (inv.present i) e held), inserts, e, held,
        rfl⟩
    · rintro ⟨-, e, member, inserts, known⟩
      rcases List.mem_cons.mp member with rfl | old
      · nomatch inserts
      · exact ⟨e, (inv.mem_knew_edit old i _).mp known, inserts⟩
  constructor
  · intro other mark
    change Bears ((c.replicas i).state.erase item).added other mark ↔ ∃ e ∈ Insert.insert _ _, _
    rw [added_erase, h.added, Set.exists_mem_insert]
    exact ⟨.inr, fun either => either.resolve_left fun inserts => nomatch inserts⟩
  · intro other mark
    change Bears ((c.replicas i).state.erase item).removed other mark ↔ ∃ r ∈ Insert.insert _ _, _
    rw [bears_erase, kept.removed, Set.exists_mem_insert]
    apply or_congr_left
    constructor
    · rintro ⟨rfl, borne⟩
      exact (cancels mark).mp borne
    · intro cancelled
      have same : Operation.erase item = .erase other := cancelled.1
      cases same
      exact ⟨rfl, (cancels mark).mpr cancelled⟩
  · change Tagged ((c.replicas i).state.erase item).added
    rw [added_erase]
    exact h.taggedAdded
  · exact h.taggedRemoved.erase h.taggedAdded item

theorem Records.merge (ha : Records log a) (hb : Records log b) :
    Records log ((design ι α).merged a b) := by
  constructor
  · intro item tag
    change Bears (a.state.added.unionWith SortedSet.union b.state.added) item tag ↔ _
    rw [bears_unionWith, ha.added, hb.added]
    simp only [Design.merged, Set.mem_union, or_and_right, exists_or]
  · intro item tag
    change Bears (a.state.removed.unionWith SortedSet.union b.state.removed) item tag ↔ _
    rw [bears_unionWith, ha.removed, hb.removed]
    simp only [Design.merged, Set.mem_union, or_and_right, exists_or]
  · exact ha.taggedAdded.unionWith hb.taggedAdded
  · exact ha.taggedRemoved.unionWith hb.taggedRemoved

theorem Records.of_run [DecidableEq ι] (run : (design ι α).Reachable c) :
    ∀ copy ∈ c.copies, Records c.log copy := by
  apply run.copies (P := Records)
  · exact Records.blank
  · intro c run i op h
    cases op with
    | insert item tag => exact h.insert run.invariant item tag
    | erase item => exact h.erase run.invariant item
  · exact fun c run i op copy member h => h.others run.invariant member i op
  · exact fun c run a _ b _ ha hb => ha.merge hb

/-- Sets with one history are the same. -/
theorem Records.eq (ha : Records log a) (hb : Records log b) (same : a.history = b.history) :
    a.state = b.state := by
  obtain ⟨⟨added, removed⟩, history⟩ := a
  obtain ⟨⟨added', removed'⟩, history'⟩ := b
  obtain rfl : history = history' := same
  have insertions : added = added' := ha.taggedAdded.eq hb.taggedAdded fun item tag =>
    (ha.added item tag).trans (hb.added item tag).symm
  have removals : removed = removed' := ha.taggedRemoved.eq hb.taggedRemoved fun item tag =>
    (ha.removed item tag).trans (hb.removed item tag).symm
  change ObservedSet.mk added removed = ⟨added', removed'⟩
  rw [insertions, removals]

/-- Additions win. In every run of sets in which no tag is used twice, and in every state that a
replica comes to be in, an item stands in the set exactly when some insertion of it is known there
that was unknown to every removal of it that is known there. The items are listed in strictly
ascending order, and replicas with one history hold the same set. -/
theorem additions_win [DecidableEq ι] (run : (design ι α).Reachable c)
    (unique : TagsUnique c.log) :
    (∀ i, c.replicas i ∈ c.copies) ∧
    (∀ copy ∈ c.copies,
      (∀ item, copy.state.contains item = true ↔ Survives copy.history item) ∧
      (∀ item, item ∈ copy.state.toList ↔ Survives copy.history item) ∧
      copy.state.toList.Pairwise fun x y => compare x y = .lt) ∧
    ∀ a ∈ c.copies, ∀ b ∈ c.copies, a.history = b.history → a.state = b.state := by
  have inv := run.invariant
  have records := Records.of_run run
  refine ⟨inv.present, fun copy member => ?_, fun a ha b hb => (records a ha).eq (records b hb)⟩
  have contains := (records copy member).contains_iff inv member unique
  exact ⟨contains, fun item => mem_toList_iff.trans (contains item), ascending_toList _⟩

/-- An item is inserted once more at one site while another site, which knows only the first
insertion, removes it. -/
def crossed : Config Bool (ObservedSet String) (Operation String) :=
  let D := design Bool String
  let known := D.record D.initial true (.insert "x" "tag-0")
  let shared := known.become false (D.merged (known.replicas false) (known.replicas true))
  let parted := D.record (D.record shared true (.insert "x" "tag-a")) false (.erase "x")
  parted.become true (D.merged (parted.replicas true) (parted.replicas false))

theorem reachable_crossed : (design Bool String).Reachable crossed := by
  have known := Design.Reachable.initial.perform (D := design Bool String) true
    (.insert "x" "tag-0")
  have shared := known.merge false (known.invariant.present true)
  have parted := (shared.perform true (.insert "x" "tag-a")).perform false (.erase "x")
  exact parted.merge true (parted.invariant.present false)

theorem tagsUnique_crossed : TagsUnique crossed.log := by
  have distinct : (crossed.log.map Edit.operation).Nodup := by decide
  intro e he f hf item tag inserts inserts'
  exact List.inj_on_of_nodup_map distinct he hf (inserts.trans inserts'.symm)

theorem crossed_insertion_survives : (design Bool String).Reachable crossed ∧
    TagsUnique crossed.log ∧ (crossed.replicas true).state.contains "x" = true ∧
    Survives (crossed.replicas true).history "x" := by
  have contains : (crossed.replicas true).state.contains "x" = true := by decide
  have present := reachable_crossed.invariant.present true
  have wins := (additions_win reachable_crossed tagsUnique_crossed).2.1 _ present
  exact ⟨reachable_crossed, tagsUnique_crossed, contains, (wins.1 "x").mp contains⟩

end Runs

end ObservedSet

end ThreatGossip

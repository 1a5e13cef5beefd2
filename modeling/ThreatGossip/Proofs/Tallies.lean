import Mathlib.Algebra.BigOperators.Group.Finset.Piecewise
import Mathlib.Algebra.GroupWithZero.Nat
import ThreatGossip.Proofs.Lattices
import ThreatGossip.Proofs.StateBased
/-!
Counters add up. However replicas add, subtract and merge, the slot of a node holds the total of the
first so many of its operations, all that are known where the slot stands. So nothing is lost and
nothing counted twice, and who knows all operations has their sum.
-/
namespace ThreatGossip

namespace GrowCounter

theorem toNat_slot_add (c : GrowCounter) (n : UInt64) (id : NodeId) :
    ((c.add n).slot id).toNat =
      if id = c.owner then min ((c.slot id).toNat + n.toNat) maxCount.toNat
      else (c.slot id).toNat := by
  unfold add slot
  dsimp only
  rw [SortedMap.get?_insert]
  split
  next same =>
    rw [same, Option.getD_some, toNat_satAdd]
  next => rfl

theorem toNat_slot_merge (a b : GrowCounter) (id : NodeId) :
    ((a.merge b).slot id).toNat = max (a.slot id).toNat (b.slot id).toNat := by
  unfold merge slot
  dsimp only
  rw [SortedMap.get?_unionWith]
  cases a.counts.get? id <;> cases b.counts.get? id <;> simp

theorem toNat_foldl_satAdd (counts : List UInt64) (start : UInt64) :
    (counts.foldl satAdd start).toNat =
      min (start.toNat + (counts.map UInt64.toNat).sum) maxCount.toNat := by
  have top : maxCount.toNat = 18446744073709551615 := rfl
  induction counts generalizing start with
  | nil =>
      have bound := start.toNat_lt
      simp only [List.foldl_nil, List.map_nil, List.sum_nil]
      omega
  | cons n rest ih =>
      rw [List.foldl_cons, ih, toNat_satAdd, List.map_cons, List.sum_cons]
      omega

theorem slot_eq_zero {c : GrowCounter} {id : NodeId} (absent : id ∉ c.counts.keys) :
    c.slot id = 0 := by
  rw [SortedMap.mem_keys_iff] at absent
  unfold slot
  cases found : c.counts.get? id with
  | none => rfl
  | some n => exact absurd (SortedMap.contains_iff.mpr ⟨n, found⟩) absent

/-- The total is the sum of the slots, over any nodes that leave none out. -/
theorem toNat_total {c : GrowCounter} {ids : Finset NodeId} (all : ∀ id ∈ c.counts.keys, id ∈ ids) :
    c.total.toNat = min (∑ id ∈ ids, (c.slot id).toNat) maxCount.toNat := by
  have values : c.counts.values.map UInt64.toNat =
      c.counts.keys.map fun id => (c.slot id).toNat := by
    unfold SortedMap.values SortedMap.keys
    rw [List.map_map, List.map_map]
    apply List.map_congr_left
    rintro ⟨id, n⟩ listed
    have found := SortedMap.get?_eq_some_iff.mpr listed
    simp only [Function.comp, slot, found, Option.getD_some]
  have sub : c.counts.keys.toFinset ⊆ ids := by
    intro id member
    exact all id (List.mem_toFinset.mp member)
  rw [total, toNat_foldl_satAdd, values, ← List.sum_toFinset _ c.counts.nodup_keys,
    Finset.sum_subset sub fun id _ absent => ?_]
  · simp
  · rw [slot_eq_zero fun listed => absent (List.mem_toFinset.mpr listed)]
    rfl

/-- Only slots above zero are compared. -/
theorem sameState_iff {a b : GrowCounter} :
    a.sameState b = true ↔ ∀ id, a.slot id = b.slot id := by
  unfold sameState counted
  rw [beq_iff_eq]
  exact SortedMap.positive_entries_eq_iff

end GrowCounter

namespace Counter

inductive Side
  | up
  | down
  deriving DecidableEq

def side (c : Counter) : Side → GrowCounter
  | .up => c.up
  | .down => c.down

/-- What a replica does with its counter: it adds or subtracts an amount. -/
structure Operation where
  side : Side
  amount : UInt64

def perform (c : Counter) (op : Operation) : Counter :=
  match op.side with
  | .up => c.add op.amount
  | .down => c.subtract op.amount

/-- Counters that belong to their sites. -/
def design : StateBased.Design NodeId Counter Operation := ⟨empty, perform, merge⟩

abbrev Edit := StateBased.Edit NodeId Operation

/-- What an operation counts for on one side. -/
def Operation.on (op : Operation) (side : Side) : Nat :=
  if op.side = side then op.amount.toNat else 0

/-- What operations come to on one side. -/
def total (side : Side) (es : List Edit) : Nat := (es.map fun e => e.operation.on side).sum

/-- The operations of one site, the oldest first. -/
def editsOf (log : List Edit) (id : NodeId) : List Edit := (log.filter (·.site = id)).reverse

section Totals

variable {side : Side} {es fs log : List Edit} {e : Edit} {id : NodeId}

theorem total_append : total side (es ++ fs) = total side es + total side fs := by
  unfold total
  rw [List.map_append, List.sum_append]

theorem total_mono (first : es <+: fs) : total side es ≤ total side fs := by
  obtain ⟨rest, rfl⟩ := first
  rw [total_append]
  exact Nat.le_add_right _ _

theorem mem_editsOf_iff : e ∈ editsOf log id ↔ e ∈ log ∧ e.site = id := by
  unfold editsOf
  rw [List.mem_reverse, List.mem_filter, decide_eq_true_eq]

theorem nodup_editsOf (nodup : log.Nodup) (id : NodeId) : (editsOf log id).Nodup :=
  List.nodup_reverse.mpr (nodup.filter _)

theorem editsOf_cons :
    editsOf (e :: log) id = if e.site = id then editsOf log id ++ [e] else editsOf log id := by
  unfold editsOf
  rw [List.filter_cons]
  by_cases same : e.site = id <;> simp [same]

theorem total_editsOf_cons : total side (editsOf (e :: log) id) =
    total side (editsOf log id) + if e.site = id then e.operation.on side else 0 := by
  rw [editsOf_cons]
  split
  next =>
    rw [total_append]
    rfl
  next => rfl

/-- All operations are those of their sites. -/
theorem sum_total_editsOf {ids : Finset NodeId} (sites : ∀ e ∈ log, e.site ∈ ids) :
    ∑ id ∈ ids, total side (editsOf log id) = total side log := by
  induction log with
  | nil => exact Finset.sum_const_zero
  | cons e rest ih =>
      have here := sites e List.mem_cons_self
      have others := ih fun f later => sites f (List.mem_cons_of_mem _ later)
      simp only [total_editsOf_cons, Finset.sum_add_distrib, Finset.sum_ite_eq, if_pos here, others]
      unfold total
      rw [List.map_cons, List.sum_cons, Nat.add_comm]

theorem total_editsOf_le : total side (editsOf log id) ≤ total side log := by
  induction log with
  | nil => exact Nat.le_refl _
  | cons e rest ih =>
      rw [total_editsOf_cons]
      unfold total at ih ⊢
      rw [List.map_cons, List.sum_cons]
      split <;> omega

/-- A beginning of a list without repetition is all of it when it has all members. -/
theorem prefix_eq (first : es <+: fs) (nodup : fs.Nodup) (all : ∀ e ∈ fs, e ∈ es) : es = fs :=
  first.sublist.eq_of_length_le (nodup.subperm all).length_le

end Totals

section Runs

open StateBased (Replica Config Invariant Design)

variable {c : Config NodeId Counter Operation} {a b : Replica NodeId Counter Operation}
  {log : List Edit}

/-- Each slot holds what its node's operations in the history come to, and these are the first that
the node performed. -/
def Sums (log : List Edit) (copy : Replica NodeId Counter Operation) : Prop :=
  ∀ id, ∃ es, es <+: editsOf log id ∧ (∀ e, e ∈ es ↔ e ∈ copy.history ∧ e.site = id) ∧
    ∀ side, ((copy.state.side side).slot id).toNat = min (total side es) maxCount.toNat

theorem Sums.blank (site : NodeId) : Sums [] (design.blank site) := by
  intro id
  refine ⟨[], List.nil_prefix, fun e => ?_, fun side => ?_⟩
  · exact ⟨fun member => absurd member List.not_mem_nil, fun ⟨held, _⟩ => held.elim⟩
  · cases side <;> rfl

/-- What others do comes after what is known. -/
theorem Sums.others (h : Sums log a) (e : Edit) : Sums (e :: log) a := by
  intro id
  obtain ⟨es, first, members, slots⟩ := h id
  refine ⟨es, first.trans ?_, members, slots⟩
  rw [editsOf_cons]
  split
  next => exact List.prefix_append _ _
  next => exact List.prefix_rfl

/-- Where all operations of a node are known, its slot holds all that they come to. -/
theorem Sums.slot_of_known (h : Sums log a) (nodup : log.Nodup) {id : NodeId}
    (known : ∀ e ∈ log, e.site = id → e ∈ a.history) (side : Side) :
    ((a.state.side side).slot id).toNat = min (total side (editsOf log id)) maxCount.toNat := by
  obtain ⟨es, first, members, slots⟩ := h id
  have whole : es = editsOf log id := by
    apply prefix_eq first (nodup_editsOf nodup id)
    intro e member
    obtain ⟨logged, here⟩ := mem_editsOf_iff.mp member
    exact (members e).mpr ⟨known e logged here, here⟩
  rw [slots, whole]

theorem side_perform (k : Counter) (op : Operation) (side : Side) :
    (k.perform op).side side =
      if op.side = side then (k.side side).add op.amount else k.side side := by
  obtain ⟨on, amount⟩ := op
  cases on <;> cases side <;> rfl

/-- An operation counts in the slot of the owner and in no other. -/
theorem toNat_slot_perform {k : Counter} {owner : NodeId}
    (owned : ∀ side, (k.side side).owner = owner) (op : Operation) (side : Side) (id : NodeId) :
    (((k.perform op).side side).slot id).toNat =
      if id = owner then min (((k.side side).slot id).toNat + op.on side) maxCount.toNat
      else ((k.side side).slot id).toNat := by
  have top : maxCount.toNat = 18446744073709551615 := rfl
  have bound := ((k.side side).slot id).toNat_lt
  rw [side_perform]
  unfold Operation.on
  by_cases same : op.side = side
  · rw [if_pos same, if_pos same, GrowCounter.toNat_slot_add, owned]
  · rw [if_neg same, if_neg same]
    split <;> omega

/-- The new operation comes after all that its site has performed, which the site knows. -/
theorem Sums.perform {i : NodeId} (h : Sums c.log (c.replicas i)) (inv : Invariant c)
    (owned : ∀ side, ((c.replicas i).state.side side).owner = i) (op : Operation) :
    Sums (c.edit i op :: c.log) (design.performed (c.replicas i) (c.edit i op)) := by
  intro id
  by_cases here : id = i
  · subst here
    have known : ∀ e ∈ c.log, e.site = id → e ∈ (c.replicas id).history := by
      rintro e member rfl
      exact inv.own e member
    refine ⟨editsOf c.log id ++ [c.edit id op], ?_, fun e => ?_, fun side => ?_⟩
    · rw [editsOf_cons, if_pos (show (c.edit id op).site = id from rfl)]
    · rw [List.mem_append, List.mem_singleton, mem_editsOf_iff]
      change _ ↔ (e = c.edit id op ∨ e ∈ (c.replicas id).history) ∧ e.site = id
      constructor
      · rintro (⟨member, site⟩ | rfl)
        · exact ⟨.inr (known e member site), site⟩
        · exact ⟨.inl rfl, rfl⟩
      · rintro ⟨rfl | held, site⟩
        · exact .inr rfl
        · exact .inl ⟨inv.logged _ (inv.present id) e held, site⟩
    · change (((((c.replicas id).state.perform op).side side)).slot id).toNat = _
      rw [toNat_slot_perform owned, if_pos rfl, h.slot_of_known inv.nodup known, total_append]
      change _ = min (_ + (op.on side + 0)) _
      omega
  · obtain ⟨es, first, members, slots⟩ := h id
    refine ⟨es, ?_, fun e => ?_, fun side => ?_⟩
    · rw [editsOf_cons, if_neg (show (c.edit i op).site ≠ id from Ne.symm here)]
      exact first
    · rw [members]
      change _ ↔ (e = c.edit i op ∨ e ∈ (c.replicas i).history) ∧ e.site = id
      constructor
      · rintro ⟨held, site⟩
        exact ⟨.inr held, site⟩
      · rintro ⟨rfl | held, site⟩
        · exact absurd site.symm here
        · exact ⟨held, site⟩
    · change (((((c.replicas i).state.perform op).side side)).slot id).toNat = _
      rw [toNat_slot_perform owned, if_neg here, slots]

/-- Of two beginnings one goes further, and has the members and the slots of both. -/
theorem Sums.merge (ha : Sums log a) (hb : Sums log b) : Sums log (design.merged a b) := by
  intro id
  obtain ⟨es, first, members, slots⟩ := ha id
  obtain ⟨fs, first', members', slots'⟩ := hb id
  have merged : ∀ side, (((design.merged a b).state.side side).slot id).toNat =
      max (min (total side es) maxCount.toNat) (min (total side fs) maxCount.toNat) := by
    intro side
    rw [← slots, ← slots', ← GrowCounter.toNat_slot_merge]
    cases side <;> rfl
  have either : ∀ e, e ∈ (design.merged a b).history ∧ e.site = id ↔ e ∈ es ∨ e ∈ fs := by
    intro e
    rw [members, members', ← or_and_right]
    rfl
  rcases List.prefix_or_prefix_of_prefix first first' with further | further
  · refine ⟨fs, first', fun e => ?_, fun side => ?_⟩
    · rw [either]
      exact (or_iff_right_of_imp fun member => further.subset member).symm
    · have le : total side _ ≤ total side _ := total_mono further
      rw [merged]
      omega
  · refine ⟨es, first, fun e => ?_, fun side => ?_⟩
    · rw [either]
      exact (or_iff_left_of_imp fun member => further.subset member).symm
    · have le : total side _ ≤ total side _ := total_mono further
      rw [merged]
      omega

theorem owner_of_run (run : design.Reachable c) (id : NodeId) :
    ∀ side, ((c.replicas id).state.side side).owner = id := by
  apply run.sites (P := fun id k => ∀ side, (k.side side).owner = id)
  · intro id side
    cases side <;> rfl
  · intro id k op owned side
    change ((k.perform op).side side).owner = id
    rw [side_perform]
    split
    next => exact owned side
    next => exact owned side
  · intro id k other owned side
    rw [← owned side]
    cases side <;> rfl

theorem Sums.of_run (run : design.Reachable c) : ∀ copy ∈ c.copies, Sums c.log copy := by
  apply run.copies (P := Sums)
  · exact Sums.blank
  · exact fun c run i op h => h.perform run.invariant (owner_of_run run i) op
  · exact fun c _ i op copy _ h => h.others (c.edit i op)
  · exact fun c _ a _ b _ ha hb => ha.merge hb

/-- Whoever knows all operations has their sum. -/
theorem Sums.total_of_known (h : Sums log a) (nodup : log.Nodup)
    (bounded : ∀ side, total side log ≤ maxCount.toNat) (known : ∀ e ∈ log, e ∈ a.history)
    (side : Side) : (a.state.side side).total.toNat = total side log := by
  have slots : ∀ id, ((a.state.side side).slot id).toNat = total side (editsOf log id) := by
    intro id
    have le : total side (editsOf log id) ≤ total side log := total_editsOf_le
    rw [h.slot_of_known nodup fun e member _ => known e member]
    exact Nat.min_eq_left (le_trans le (bounded side))
  -- Nodes without a slot and nodes without an operation add nothing.
  let ids := (a.state.side side).counts.keys.toFinset ∪ (log.map StateBased.Edit.site).toFinset
  have listed : ∀ id ∈ (a.state.side side).counts.keys, id ∈ ids := fun id member =>
    Finset.mem_union_left _ (List.mem_toFinset.mpr member)
  have sites : ∀ e ∈ log, e.site ∈ ids := fun e member =>
    Finset.mem_union_right _ (List.mem_toFinset.mpr (List.mem_map_of_mem member))
  rw [GrowCounter.toNat_total listed, Finset.sum_congr rfl fun id _ => slots id,
    sum_total_editsOf sites]
  exact Nat.min_eq_left (bounded side)

/-- Counters with one history have the same slots. -/
theorem Sums.slot_eq (ha : Sums log a) (hb : Sums log b) (nodup : log.Nodup)
    (same : a.history = b.history) (side : Side) (id : NodeId) :
    (a.state.side side).slot id = (b.state.side side).slot id := by
  obtain ⟨es, first, members, slots⟩ := ha id
  obtain ⟨fs, first', members', slots'⟩ := hb id
  have alike : ∀ e, e ∈ es ↔ e ∈ fs := by
    intro e
    rw [members, members', same]
  have equal : es = fs := by
    have distinct := nodup_editsOf nodup id
    rcases List.prefix_or_prefix_of_prefix first first' with further | further
    · exact prefix_eq further (first'.sublist.nodup distinct) fun e => (alike e).mpr
    · exact (prefix_eq further (first.sublist.nodup distinct) fun e => (alike e).mp).symm
  apply UInt64.toNat_inj.mp
  rw [slots, slots', equal]

/-- Every operation counts, and counts once. In every run of counters in which the additions and the
subtractions do not pass the greatest count, a node's own slots hold what its operations come to; in
any state that any replica comes to be in, its slots hold what the first of its operations come to,
which are those that are known there. A replica that knows all operations has the sum of all
additions less that of all subtractions, cut off at the ends of the signed range. Replicas with one
history are in the same state. -/
theorem counts_every_operation_once (run : design.Reachable c)
    (bounded : ∀ side, total side c.log ≤ maxCount.toNat) :
    (∀ id, c.replicas id ∈ c.copies ∧ ∀ side,
      (((c.replicas id).state.side side).slot id).toNat = total side (editsOf c.log id)) ∧
    (∀ copy ∈ c.copies, ∀ id, ∃ es, es <+: editsOf c.log id ∧
      (∀ e, e ∈ es ↔ e ∈ copy.history ∧ e.site = id) ∧
      ∀ side, ((copy.state.side side).slot id).toNat = total side es) ∧
    (∀ copy ∈ c.copies, (∀ e ∈ c.log, e ∈ copy.history) → copy.state.value =
      max minSigned (min maxSigned ((total .up c.log : Int) - total .down c.log))) ∧
    ∀ a ∈ c.copies, ∀ b ∈ c.copies, a.history = b.history → a.state.sameState b.state = true := by
  have inv := run.invariant
  have sums := Sums.of_run run
  have within : ∀ side id, total side (editsOf c.log id) ≤ maxCount.toNat := fun side id =>
    le_trans total_editsOf_le (bounded side)
  refine ⟨fun id => ⟨inv.present id, fun side => ?_⟩, fun copy member id => ?_,
    fun copy member known => ?_, fun a ha b hb same => ?_⟩
  · rw [(sums _ (inv.present id)).slot_of_known inv.nodup]
    · exact Nat.min_eq_left (within side id)
    · rintro e member rfl
      exact inv.own e member
  · obtain ⟨es, first, members, slots⟩ := sums copy member id
    refine ⟨es, first, members, fun side => ?_⟩
    rw [slots]
    exact Nat.min_eq_left (le_trans (total_mono first) (within side id))
  · have totals := (sums copy member).total_of_known inv.nodup bounded known
    have up : copy.state.up.total.toNat = total .up c.log := totals .up
    have down : copy.state.down.total.toNat = total .down c.log := totals .down
    rw [value, up, down]
  · have slots := (sums a ha).slot_eq (sums b hb) inv.nodup same
    have up := GrowCounter.sameState_iff.mpr (slots .up)
    have down := GrowCounter.sameState_iff.mpr (slots .down)
    unfold side at up down
    rw [sameState, up, down]
    rfl

/-- One node adds five, another adds one and subtracts three, and the first hears of it twice. -/
def settled : Config NodeId Counter Operation :=
  let told := design.record (design.record (design.record design.initial "a" ⟨.up, 5⟩) "b" ⟨.up, 1⟩)
    "b" ⟨.down, 3⟩
  let heard := told.become "a" (design.merged (told.replicas "a") (told.replicas "b"))
  heard.become "a" (design.merged (heard.replicas "a") (heard.replicas "b"))

theorem reachable_settled : design.Reachable settled := by
  have told := ((Design.Reachable.initial.perform (D := design) "a" ⟨.up, 5⟩).perform "b"
    ⟨.up, 1⟩).perform "b" ⟨.down, 3⟩
  have heard := told.merge "a" (told.invariant.present "b")
  exact heard.merge "a" (heard.invariant.present "b")

theorem value_settled : design.Reachable settled ∧
    (∀ side, total side settled.log ≤ maxCount.toNat) ∧ (settled.replicas "a").state.value = 3 := by
  have bounded : ∀ side, total side settled.log ≤ maxCount.toNat := by
    intro side
    cases side <;> decide
  have counted := counts_every_operation_once reachable_settled bounded
  have known : ∀ e ∈ settled.log, e ∈ (settled.replicas "a").history := by
    intro e member
    rcases List.mem_cons.mp member with rfl | earlier
    · exact .inr (.inl rfl)
    rcases List.mem_cons.mp earlier with rfl | first
    · exact .inr (.inr (.inl rfl))
    · obtain rfl := List.mem_singleton.mp first
      exact .inl (.inl (.inl rfl))
  refine ⟨reachable_settled, bounded, ?_⟩
  rw [counted.2.2.1 _ (counted.1 "a").1 known]
  decide

end Runs

end Counter

end ThreatGossip

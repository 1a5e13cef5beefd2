import Mathlib.Data.List.Nodup
import Mathlib.Data.Set.Image
import Mathlib.Data.Set.Insert
import Mathlib.Logic.Function.Basic
/-!
Runs of replicas that merge whole states. At any time a replica performs an operation of its own, or
takes in any state that some replica has ever been in; states may come late, twice or not at all.
Each replica goes with its causal history, the operations that its state has come to know of.
-/
namespace ThreatGossip.StateBased

/-- A replicated data type: what a new replica is at each site, its operations, and merging. -/
structure Design (ι σ ω : Type) where
  start : ι → σ
  perform : σ → ω → σ
  merge : σ → σ → σ

/-- An operation that a replica performed: which of all operations it was, counted from zero, and
the numbers of those that the replica had in its history then. -/
structure Edit (ι ω : Type) where
  site : ι
  operation : ω
  serial : Nat
  knew : Set Nat

/-- A replica with its causal history. -/
structure Replica (ι σ ω : Type) where
  state : σ
  history : Set (Edit ι ω)

/-- All replicas, every state that any of them has been in, and all operations, the newest first. -/
structure Config (ι σ ω : Type) where
  replicas : ι → Replica ι σ ω
  copies : Set (Replica ι σ ω)
  log : List (Edit ι ω)

variable {ι σ ω : Type}

namespace Config

variable (c : Config ι σ ω) (i : ι)

/-- What an operation is on record as, when it is performed now. -/
def edit (op : ω) : Edit ι ω := ⟨i, op, c.log.length, Edit.serial '' (c.replicas i).history⟩

/-- A replica passes into a new state. -/
def become [DecidableEq ι] (next : Replica ι σ ω) : Config ι σ ω :=
  { c with replicas := Function.update c.replicas i next, copies := insert next c.copies }

theorem forall_become [DecidableEq ι] {P : ι → Replica ι σ ω → Prop} {next : Replica ι σ ω}
    (here : P i next) (elsewhere : ∀ j, P j (c.replicas j)) (j : ι) :
    P j ((c.become i next).replicas j) := by
  change P j (Function.update c.replicas i next j)
  by_cases same : j = i
  · subst same
    rw [Function.update_self]
    exact here
  · rw [Function.update_of_ne same]
    exact elsewhere j

end Config

namespace Design

variable (D : Design ι σ ω)

/-- A replica that has seen nothing. -/
def blank (i : ι) : Replica ι σ ω := ⟨D.start i, ∅⟩

def performed (r : Replica ι σ ω) (e : Edit ι ω) : Replica ι σ ω :=
  ⟨D.perform r.state e.operation, insert e r.history⟩

def merged (a b : Replica ι σ ω) : Replica ι σ ω := ⟨D.merge a.state b.state, a.history ∪ b.history⟩

def initial : Config ι σ ω := ⟨D.blank, Set.range D.blank, []⟩

variable [DecidableEq ι]

/-- A replica performs an operation. -/
def record (c : Config ι σ ω) (i : ι) (op : ω) : Config ι σ ω :=
  { c.become i (D.performed (c.replicas i) (c.edit i op)) with log := c.edit i op :: c.log }

inductive Reachable : Config ι σ ω → Prop
  | initial : Reachable D.initial
  | perform {c : Config ι σ ω} (i : ι) (op : ω) : Reachable c → Reachable (D.record c i op)
  | merge {c : Config ι σ ω} (i : ι) {copy : Replica ι σ ω} : Reachable c → copy ∈ c.copies →
      Reachable (c.become i (D.merged (c.replicas i) copy))

end Design

/-- What holds in every state of a run, whatever the data type. -/
structure Invariant (c : Config ι σ ω) : Prop where
  serials : c.log.map Edit.serial = (List.range c.log.length).reverse
  knew : ∀ e ∈ c.log, ∀ n ∈ e.knew, n < e.serial
  present : ∀ i, c.replicas i ∈ c.copies
  logged : ∀ copy ∈ c.copies, ∀ e ∈ copy.history, e ∈ c.log
  own : ∀ e ∈ c.log, e ∈ (c.replicas e.site).history

namespace Invariant

variable {D : Design ι σ ω} {c : Config ι σ ω}

theorem serial_lt (inv : Invariant c) {e : Edit ι ω} (member : e ∈ c.log) :
    e.serial < c.log.length := by
  have listed : e.serial ∈ c.log.map Edit.serial := List.mem_map_of_mem member
  rw [inv.serials, List.mem_reverse, List.mem_range] at listed
  exact listed

theorem nodup_serials (inv : Invariant c) : (c.log.map Edit.serial).Nodup := by
  rw [inv.serials]
  exact List.nodup_reverse.mpr List.nodup_range

theorem nodup (inv : Invariant c) : c.log.Nodup := inv.nodup_serials.of_map _

theorem eq_of_serial (inv : Invariant c) {e f : Edit ι ω} (he : e ∈ c.log) (hf : f ∈ c.log)
    (same : e.serial = f.serial) : e = f :=
  List.inj_on_of_nodup_map inv.nodup_serials he hf same

/-- What an operation knew is the history of its replica. -/
theorem mem_knew_edit (inv : Invariant c) {e : Edit ι ω} (member : e ∈ c.log) (i : ι) (op : ω) :
    e.serial ∈ (c.edit i op).knew ↔ e ∈ (c.replicas i).history := by
  constructor
  · rintro ⟨f, held, same⟩
    rw [← inv.eq_of_serial (inv.logged _ (inv.present i) f held) member same]
    exact held
  · exact fun held => ⟨e, held, rfl⟩

/-- Nobody has known an operation before it was performed. -/
theorem not_mem_knew (inv : Invariant c) {e : Edit ι ω} (member : e ∈ c.log) (i : ι) (op : ω) :
    (c.edit i op).serial ∉ e.knew := by
  intro known
  have before := inv.knew e member _ known
  have bound := inv.serial_lt member
  change c.log.length < e.serial at before
  omega

theorem initial : Invariant D.initial where
  serials := rfl
  knew := fun _ member => absurd member List.not_mem_nil
  present := fun i => ⟨i, rfl⟩
  logged := by
    rintro _ ⟨i, rfl⟩ e member
    exact absurd member (Set.notMem_empty e)
  own := fun _ member => absurd member List.not_mem_nil

variable [DecidableEq ι]

theorem present_become (inv : Invariant c) (i : ι) (next : Replica ι σ ω) (j : ι) :
    (c.become i next).replicas j ∈ (c.become i next).copies :=
  c.forall_become i (P := fun _ r => r ∈ insert next c.copies) (Set.mem_insert _ _)
    (fun j => Set.mem_insert_of_mem _ (inv.present j)) j

/-- A replica that loses no operation still knows its own. -/
theorem own_become (inv : Invariant c) {i : ι} {next : Replica ι σ ω}
    (kept : (c.replicas i).history ⊆ next.history) {e : Edit ι ω} (member : e ∈ c.log) :
    e ∈ ((c.become i next).replicas e.site).history := by
  apply c.forall_become i (P := fun j r => e.site = j → e ∈ r.history)
  · rintro rfl
    exact kept (inv.own e member)
  · rintro j rfl
    exact inv.own e member
  · rfl

theorem record (inv : Invariant c) (i : ι) (op : ω) : Invariant (D.record c i op) := by
  constructor
  · change c.log.length :: c.log.map Edit.serial = (List.range (c.log.length + 1)).reverse
    rw [inv.serials, List.range_succ, List.reverse_append]
    rfl
  · intro e member n known
    rcases List.mem_cons.mp member with rfl | old
    · obtain ⟨f, held, rfl⟩ := known
      exact inv.serial_lt (inv.logged _ (inv.present i) f held)
    · exact inv.knew e old n known
  · exact inv.present_become i _
  · rintro copy (rfl | old) e held
    · rcases held with rfl | held
      · exact List.mem_cons_self
      · exact List.mem_cons_of_mem _ (inv.logged _ (inv.present i) e held)
    · exact List.mem_cons_of_mem _ (inv.logged copy old e held)
  · intro e member
    rcases List.mem_cons.mp member with rfl | old
    · change c.edit i op ∈ (Function.update c.replicas i _ i).history
      rw [Function.update_self]
      exact Set.mem_insert _ _
    · exact inv.own_become (Set.subset_insert _ _) old

theorem merge (inv : Invariant c) (i : ι) {copy : Replica ι σ ω} (member : copy ∈ c.copies) :
    Invariant (c.become i (D.merged (c.replicas i) copy)) := by
  constructor
  · exact inv.serials
  · exact inv.knew
  · exact inv.present_become i _
  · rintro other (rfl | old) e held
    · rcases held with mine | theirs
      · exact inv.logged _ (inv.present i) e mine
      · exact inv.logged copy member e theirs
    · exact inv.logged other old e held
  · exact fun e logged => inv.own_become Set.subset_union_left logged

end Invariant

namespace Design.Reachable

variable {D : Design ι σ ω} {c : Config ι σ ω} [DecidableEq ι]

theorem invariant (run : D.Reachable c) : Invariant c := by
  induction run with
  | initial => exact .initial
  | perform i op _ ih => exact ih.record i op
  | merge i _ member ih => exact ih.merge i member

/-- What new replicas have, and what operations and merges keep, every replica has at all times.
A replica must also keep it while others perform operations. -/
theorem copies {P : List (Edit ι ω) → Replica ι σ ω → Prop} (run : D.Reachable c)
    (start : ∀ i, P [] (D.blank i))
    (perform : ∀ c, D.Reachable c → ∀ i op, P c.log (c.replicas i) →
      P (c.edit i op :: c.log) (D.performed (c.replicas i) (c.edit i op)))
    (others : ∀ c, D.Reachable c → ∀ i op, ∀ copy ∈ c.copies, P c.log copy →
      P (c.edit i op :: c.log) copy)
    (merge : ∀ c, D.Reachable c → ∀ a ∈ c.copies, ∀ b ∈ c.copies, P c.log a → P c.log b →
      P c.log (D.merged a b)) :
    ∀ copy ∈ c.copies, P c.log copy := by
  induction run with
  | initial =>
      rintro _ ⟨i, rfl⟩
      exact start i
  | @perform c i op run ih =>
      rintro copy (rfl | old)
      · exact perform c run i op (ih _ (run.invariant.present i))
      · exact others c run i op copy old (ih copy old)
  | @merge c i copy run member ih =>
      rintro other (rfl | old)
      · have present := run.invariant.present i
        exact merge c run _ present copy member (ih _ present) (ih copy member)
      · exact ih other old

/-- What a replica has at its site, it keeps. -/
theorem sites {P : ι → σ → Prop} (run : D.Reachable c) (start : ∀ i, P i (D.start i))
    (perform : ∀ i s op, P i s → P i (D.perform s op))
    (merge : ∀ i s t, P i s → P i (D.merge s t)) : ∀ i, P i (c.replicas i).state := by
  induction run with
  | initial => exact start
  | @perform c i op run ih =>
      exact c.forall_become i (P := fun j r => P j r.state) (perform i _ op (ih i)) ih
  | @merge c i copy run member ih =>
      exact c.forall_become i (P := fun j r => P j r.state) (merge i _ _ (ih i)) ih

end Design.Reachable

end ThreatGossip.StateBased

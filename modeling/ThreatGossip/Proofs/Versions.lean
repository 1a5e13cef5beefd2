import Mathlib.Logic.Relation
import ThreatGossip.Gossip
import ThreatGossip.Proofs.Replays
import ThreatGossip.Proofs.Standings
/-!
The version of a map and the clocks of its registers. A replica that writes, takes in deltas of any
content and merges other such replicas stands at the join of its registers' clocks. The version that
comes with a decoded snapshot may be made up, but it can only raise that of the node that takes it
in. Either way the version knows all registers: a write is stamped past each of them, and a reader
at the version lacks none.
-/
namespace ThreatGossip

open Json (Document)

/-- Why a local write is not made. -/
inductive WriteFault
  | overflow
  | staleClock
  deriving DecidableEq

namespace RegisterMap

variable {α : Type} {m m' o : RegisterMap α} {rs : Registers α}

/-- A local write that first makes sure that its clock knows all that the register knew. -/
def putChecked (m : RegisterMap α) (key : String) (value : Option α) (wall : Millis) :
    Except WriteFault (RegisterMap α) :=
  match m.version.tick? m.owner with
  | none => .error .overflow
  | some version =>
    let old := (m.registers.get? key).getD (.initial m.owner none)
    if version.descends old.clock then
      .ok { m with
        version, registers := m.registers.insert key (old.stamp m.owner value wall version) }
    else .error .staleClock

/-- The clocks of all registers. -/
def clocks (m : RegisterMap α) : Set Clock := {c | ∃ k r, m.register? k = some r ∧ r.clock = c}

/-- The join of the clocks of all registers, slot by slot their maximum. -/
def knowledge (m : RegisterMap α) : Clock :=
  m.registers.values.foldl (fun c r => c.join r.clock) .empty

/-- The version knows what the registers know, and no more. -/
def Spanned (m : RegisterMap α) : Prop := IsLUB m.clocks m.version

/-- What is made without decoding: a new replica, and what its writes and deletions, deltas of any
content, and merges with other such replicas make of it. -/
inductive Grown : RegisterMap α → Prop
  | empty (owner : NodeId) : Grown (.empty owner)
  | put {m m' : RegisterMap α} {key : String} {value : Option α} {wall : Millis} :
      Grown m → m.put? key value wall = some m' → Grown m'
  | apply {m : RegisterMap α} (d : Delta α) : Grown m → Grown (m.apply d)
  | merge {m o : RegisterMap α} : Grown m → Grown o → Grown (m.merge o)

theorem isLUB_knowledge (m : RegisterMap α) : IsLUB m.clocks m.knowledge := by
  constructor
  · rintro c ⟨k, r, found, rfl⟩
    exact clock_le_foldl_join (mem_values_iff.mpr ⟨k, found⟩) _
  · intro c above
    refine foldl_join_le (Clock.empty_le c) fun r member => ?_
    obtain ⟨k, found⟩ := mem_values_iff.mp member
    exact above ⟨k, r, found, rfl⟩

theorem Spanned.alike_knowledge (h : m.Spanned) : m.version.alike m.knowledge = true := by
  rw [Clock.alike_iff]
  have join := m.isLUB_knowledge
  exact fun n => Nat.le_antisymm (h.2 join.1 n) (join.2 h.1 n)

theorem Spanned.dated (h : m.Spanned) : m.Dated := fun k r found => h.1 ⟨k, r, found, rfl⟩

theorem spanned_empty (owner : NodeId) : (empty owner : RegisterMap α).Spanned := by
  constructor
  · rintro c ⟨k, r, found, -⟩
    nomatch found
  · exact fun c _ => Clock.empty_le c

theorem Spanned.put {key : String} {value : Option α} {wall : Millis} (h : m.Spanned)
    (put : m.put? key value wall = some m') : m'.Spanned := by
  have dated := h.dated.put put
  constructor
  · rintro c ⟨k, r, found, rfl⟩
    exact dated k r found
  · intro c above
    obtain ⟨-, -, registers⟩ := put?_spec put
    have written := registers key
    rw [if_pos rfl] at written
    exact above ⟨key, _, written, rfl⟩

/-- No register falls back when others are taken in. -/
theorem clock_le_absorb {k : String} {r : Register (Option α)} (found : m.register? k = some r)
    (rs : Registers α) : ∃ s, (m.absorb rs).register? k = some s ∧ r.clock ≤ s.clock := by
  have absorbed := register?_absorb m rs k
  rw [found] at absorbed
  cases brought : rs.get? k with
  | none =>
      rw [brought] at absorbed
      exact ⟨r, absorbed, le_refl _⟩
  | some b =>
      rw [brought] at absorbed
      refine ⟨r.merge b, absorbed, fun n => ?_⟩
      rw [Register.count_merge]
      exact Nat.le_max_left _ _

/-- What is taken in is known by the register that then stands there. -/
theorem brought_clock_le_absorb {k : String} {b : Register (Option α)}
    (brought : rs.get? k = some b) (m : RegisterMap α) :
    ∃ s, (m.absorb rs).register? k = some s ∧ b.clock ≤ s.clock := by
  have absorbed := register?_absorb m rs k
  rw [brought] at absorbed
  cases found : m.register? k with
  | none =>
      rw [found] at absorbed
      exact ⟨b, absorbed, le_refl _⟩
  | some r =>
      rw [found] at absorbed
      refine ⟨r.merge b, absorbed, fun n => ?_⟩
      rw [Register.count_merge]
      exact Nat.le_max_right _ _

/-- A bound of all registers bounds what the map knew and what it took in. -/
theorem Spanned.version_absorb_le (h : m.Spanned) {c : Clock}
    (above : c ∈ upperBounds (m.absorb rs).clocks) : (m.absorb rs).version ≤ c := by
  refine RegisterMap.version_absorb_le (h.2 ?_) ?_
  · rintro d ⟨k, r, found, rfl⟩
    obtain ⟨s, stands, le⟩ := clock_le_absorb found rs
    exact le_trans le (above ⟨k, s, stands, rfl⟩)
  · intro k b brought
    obtain ⟨s, stands, le⟩ := brought_clock_le_absorb brought m
    exact le_trans le (above ⟨k, s, stands, rfl⟩)

theorem Spanned.absorb (h : m.Spanned) (rs : Registers α) : (m.absorb rs).Spanned := by
  constructor
  · rintro c ⟨k, r, found, rfl⟩
    exact h.dated.absorb rs k r found
  · exact fun c above => h.version_absorb_le above

theorem Spanned.merge (h : m.Spanned) (ho : o.Spanned) : (m.merge o).Spanned := by
  constructor
  · rintro c ⟨k, r, found, rfl⟩
    exact h.dated.merge o k r found
  · intro c above
    have above : c ∈ upperBounds (m.absorb o.registers).clocks := above
    refine Clock.join_le (h.version_absorb_le above) (ho.2 ?_)
    rintro d ⟨k, b, brought, rfl⟩
    obtain ⟨s, stands, le⟩ := brought_clock_le_absorb brought m
    exact le_trans le (above ⟨k, s, stands, rfl⟩)

theorem Grown.spanned (h : m.Grown) : m.Spanned := by
  induction h with
  | empty owner => exact spanned_empty owner
  | put _ put ih => exact ih.put put
  | apply d _ ih => exact ih.absorb d.changes
  | merge _ _ left right => exact left.merge right

/-- The version knows every register. So the check of a write never fails, a write is past all that
the map holds, and a reader at the version lacks nothing. -/
structure Covered (m : RegisterMap α) : Prop where
  above : ∀ k r, m.register? k = some r → m.version.descends r.clock = true
  checked : ∀ key value wall,
    m.putChecked key value wall = (m.put? key value wall).elim (.error .overflow) .ok
  later : ∀ key value wall m', m.put? key value wall = some m' →
    ∃ w, m'.register? key = some w ∧ w.value = value ∧ w.clock = m'.version ∧
      ∀ k r, m.register? k = some r → r.clock.before w.clock = true
  nothing : ∀ now, (m.delta m.version now).changes = .empty

theorem Dated.putChecked_eq (h : m.Dated) (key : String) (value : Option α) (wall : Millis) :
    m.putChecked key value wall = (m.put? key value wall).elim (.error .overflow) .ok := by
  unfold putChecked put?
  cases tick : m.version.tick? m.owner with
  | none => rfl
  | some version =>
      have knows : version.descends
          ((m.registers.get? key).getD (.initial m.owner none)).clock = true := by
        rw [Clock.descends_iff]
        cases found : m.registers.get? key with
        | none => exact Clock.empty_le version
        | some r => exact le_trans (h key r found) (Clock.le_tick tick)
      dsimp only
      rw [if_pos knows]
      rfl

theorem Dated.delta_version (h : m.Dated) (now : Millis) :
    (m.delta m.version now).changes = .empty := by
  apply delta_changes_eq_empty
  rintro k ⟨r, found, missing⟩
  exact missing (h k r found)

theorem Dated.covered (h : m.Dated) : m.Covered := by
  refine ⟨?_, h.putChecked_eq, ?_, h.delta_version⟩
  · exact fun k r found => Clock.descends_iff.mpr (h k r found)
  · intro key value wall m' put
    obtain ⟨tick, -, registers⟩ := put?_spec put
    have written := registers key
    rw [if_pos rfl] at written
    refine ⟨_, written, rfl, rfl, fun k r found => ?_⟩
    exact Clock.before_iff_lt.mpr (lt_of_le_of_lt (h k r found) (Clock.lt_tick tick))

end RegisterMap

namespace Node

/-- One thing that a node does: an operation of its own, the handling of a message, the end of an
exchange that it began, however that ends, or the pruning of its roster. -/
inductive Step (n : Node) : Node → Prop
  | occurs {n' : Node} (o : Occurrence) : n.after? o = some n' → Step n n'
  | exchange (purpose : Purpose) (peer : NodeId) (now : Millis)
      (outcome : Except ExchangeError Acknowledgment) :
      Step n (n.conclude purpose peer now outcome).1
  | prune (policy : Policy) (now : Millis) : Step n (n.prune policy now).1

/-- What a new node may become. -/
def Reached (id : NodeId) : Node → Prop := Relation.ReflTransGen Step (empty id)

variable {n n' : Node}

/-- A step is a short run of occurrences, of which only the last may forget peers. -/
theorem Step.occurrences (step : n.Step n') :
    ∃ os, n.run? os = some n' ∧ ∀ o ∈ os.dropLast, o.KeepsPeers := by
  have none_kept : ∀ o ∈ ([] : List Occurrence), o.KeepsPeers := fun _ member => nomatch member
  cases step with
  | occurs o after =>
      refine ⟨[o], ?_, none_kept⟩
      rw [run?, after]
      rfl
  | prune policy now =>
      unfold Node.prune
      cases policy.evictionAge with
      | none => exact ⟨[.refreshPeers now], rfl, none_kept⟩
      | some age =>
          refine ⟨[.refreshPeers now, .evictPeers age now], rfl, fun o member => ?_⟩
          obtain rfl := List.mem_singleton.mp member
          trivial
  | exchange purpose peer now outcome =>
      rcases n.conclude_cases purpose peer now outcome with
        same | failed | ⟨ack, -, booked⟩ | ⟨ack, m, next, answer, -, -, handled, booked⟩
      · rw [same]
        exact ⟨[], rfl, none_kept⟩
      · rw [failed]
        exact ⟨[.recordFailure peer now], rfl, none_kept⟩
      · rw [booked]
        exact ⟨[.recordSuccess peer ack.version now], rfl, none_kept⟩
      · rw [booked]
        refine ⟨[.receive m now, .recordSuccess peer ack.version now], ?_, fun o member => ?_⟩
        · simp only [run?, after?, handled, Option.bind_some]
        · obtain rfl := List.mem_singleton.mp member
          trivial

theorem Reached.dated {id : NodeId} (reached : Reached id n) : n.threats.Dated := by
  induction reached with
  | refl => exact RegisterMap.dated_empty id
  | tail _ step ih =>
      obtain ⟨os, ran, -⟩ := step.occurrences
      exact dated_of_run ran ih

/-- The version of a replica is the join of its registers' clocks, whatever deltas it has taken in
and whichever such replicas it has merged. That of a node is no less, whatever it has been sent. So
the check of a write never fails, each write is past all registers, and nothing is missing at the
version. -/
theorem version_covers_registers :
    (∀ (α : Type) (m : RegisterMap α), m.Grown →
      m.version.alike m.knowledge = true ∧ m.Covered) ∧
    ∀ (id : NodeId) (n : Node), Reached id n → n.threats.Covered := by
  refine ⟨fun α m grown => ?_, fun id n reached => reached.dated.covered⟩
  exact ⟨grown.spanned.alike_knowledge, grown.spanned.dated.covered⟩

/-- A deletion of unknown origin: a slot at zero, and the greatest timestamp. -/
def stray : Delta Document :=
  ⟨"z", 0, .ofList [("k", ⟨none, maxCount, .ofList [("a", 0), ("z", 7)], "z"⟩)]⟩

/-- A full state that claims more than its one register knows. -/
def inflated : Snapshot :=
  ⟨⟨"z", .ofList [("b", 9), ("q", 3)], .ofList [("k", ⟨none, 5, .ofList [("z", 1)], "z"⟩)]⟩,
    .empty, .empty "z"⟩

/-- A replica with a stray deletion stands at what its registers know, and a node that believed an
inflated full state stands beyond it; both write and send as they should. -/
theorem inflated_covered : ∃ (m : ThreatMap) (n : Node),
    m.Grown ∧ m.register? "k" ≠ none ∧ Reached "b" n ∧
    m.version.alike m.knowledge = true ∧ m.Covered ∧ n.threats.Covered ∧
    n.version.alike n.threats.knowledge = false := by
  have written : (RegisterMap.empty "a" : ThreatMap).put? "k" none 1 = some _ := rfl
  have grown := (((RegisterMap.Grown.empty "a").put written).merge (.empty "c")).apply stray
  have believed : Reached "b" _ := .single (.occurs (.mergeSnapshot inflated 1) rfl)
  have known := version_covers_registers.1 Document _ grown
  refine ⟨_, _, grown, ?_, believed, known.1, known.2,
    version_covers_registers.2 "b" _ believed, ?_⟩
  · decide
  · decide

end Node

end ThreatGossip

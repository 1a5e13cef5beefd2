import ThreatGossip.Proofs.Inbound
import ThreatGossip.Proofs.Lattices
import ThreatGossip.Proofs.Rosters
import ThreatGossip.Proofs.Winners
/-!
Messages that come again. What a node has once taken in it has for good: whatever it writes and
whatever it is sent in the meantime, taking the same thing in again changes nothing. Nothing is
asked of what messages hold; clocks, stamps, tags and counts may be made up.
-/
namespace ThreatGossip

open Json (Document)

namespace Clock

/-- Every slot of the other clock, one at zero included, stands in this one and is no lower here. -/
def Extends (a b : Clock) : Prop := SortedMap.Below (fun x y => x ≤ y) b.slots a.slots

variable {a b c : Clock}

theorem Extends.refl (a : Clock) : a.Extends a := isJoin_counts.refl _

theorem Extends.trans (first : a.Extends b) (second : b.Extends c) : a.Extends c :=
  isJoin_counts.trans second first

theorem extends_join_left (a b : Clock) : (a.join b).Extends a := isJoin_counts.left _ _

theorem extends_join_right (a b : Clock) : (a.join b).Extends b := isJoin_counts.right _ _

theorem Extends.le (h : a.Extends b) : b ≤ a := by
  intro n
  cases slot : b.slots.get? n with
  | none =>
      rw [count_slots b, slot]
      exact Nat.zero_le _
  | some v =>
      obtain ⟨w, there, le⟩ := h n v slot
      rw [count_of_slot slot, count_of_slot there]
      exact UInt64.le_iff_toNat_le.mp le

theorem Extends.join_eq (h : a.Extends b) : a.join b = a := by
  unfold join
  rw [isJoin_counts.join_eq_left h]

theorem extends_tick {p : NodeId} (tick : a.tick? p = some b) : b.Extends a := by
  intro n v slot
  have stands : ∃ w, b.slots.get? n = some w := by
    rw [get?_slots_tick tick]
    split
    next => exact ⟨_, rfl⟩
    next => exact ⟨v, slot⟩
  obtain ⟨w, there⟩ := stands
  have grown := count_tick tick n
  rw [count_of_slot slot, count_of_slot there] at grown
  exact ⟨w, there, UInt64.le_iff_toNat_le.mpr (by omega)⟩

end Clock

namespace Register

variable {α : Type} {r b : Register α}

/-- The register has taken another one in for good: it has gone past the other's clock, or it has
all slots of it and a rank that is no lower. -/
inductive Includes (r b : Register α) : Prop
  | past : b.clock < r.clock → Includes r b
  | level : r.clock.Extends b.clock → b.rank ≤ r.rank → Includes r b

theorem Includes.refl (b : Register α) : b.Includes b := .level (.refl _) (le_refl _)

theorem Includes.clock_le (h : r.Includes b) : b.clock ≤ r.clock := by
  cases h with
  | past later => exact later.le
  | level holds => exact holds.le

theorem includes_merge_right (a b : Register α) : (a.merge b).Includes b := by
  unfold merge
  split
  next discarded => exact .past (Clock.before_iff_lt.mp discarded)
  next =>
    split
    next => exact .level (Clock.extends_join_right _ _) (le_refl _)
    next kept =>
      rw [Bool.or_eq_true, not_or, outranks_iff, not_lt] at kept
      exact .level (Clock.extends_join_right _ _) kept.2

/-- Another merge takes nothing back, whatever register it brings. -/
theorem Includes.merge (h : r.Includes b) (c : Register α) : (r.merge c).Includes b := by
  have grown : r.clock ≤ r.clock.join c.clock := Clock.le_join_left _ _
  unfold Register.merge
  split
  next => exact h
  next =>
    split
    next adopted =>
      rcases Bool.or_eq_true _ _ ▸ adopted with before | outranks
      · have later : r.clock < r.clock.join c.clock :=
          lt_of_lt_of_le (Clock.before_iff_lt.mp before) (Clock.le_join_right _ _)
        exact .past (lt_of_le_of_lt h.clock_le later)
      · cases h with
        | past later => exact .past (lt_of_lt_of_le later grown)
        | level holds rank =>
            exact .level ((Clock.extends_join_left _ _).trans holds)
              (le_trans rank (outranks_iff.mp outranks).le)
    next =>
      cases h with
      | past later => exact .past (lt_of_lt_of_le later grown)
      | level holds rank => exact .level ((Clock.extends_join_left _ _).trans holds) rank

/-- An overwriting register whose clock is ticked beyond all that stood there takes nothing back. -/
theorem Includes.stamp (h : r.Includes b) {version ticked : Clock} {owner : NodeId}
    (dated : r.clock ≤ version) (tick : version.tick? owner = some ticked) (value : α)
    (wall : Millis) : (r.stamp owner value wall ticked).Includes b :=
  .past (lt_of_le_of_lt (le_trans h.clock_le dated) (Clock.lt_tick tick))

theorem Includes.merge_eq (h : r.Includes b) : r.merge b = r := by
  unfold Register.merge
  by_cases before : b.clock.before r.clock = true
  · rw [if_pos before]
  · cases h with
    | past later => exact absurd (Clock.before_iff_lt.mpr later) before
    | level holds rank =>
        have stays : ¬(r.clock.before b.clock || b.outranks r) = true := by
          rw [Bool.or_eq_true, not_or, Clock.before_iff_lt, outranks_iff, not_lt]
          exact ⟨fun later => not_le_of_gt later holds.le, rank⟩
        rw [if_neg before, if_neg stays, holds.join_eq]

end Register

namespace RegisterMap

variable {α : Type} {m m' o : RegisterMap α}

/-- No register knows more than the version. -/
def Dated (m : RegisterMap α) : Prop := ∀ k r, m.register? k = some r → r.clock ≤ m.version

/-- The map has taken another one in for good. -/
structure Includes (m o : RegisterMap α) : Prop where
  registers : ∀ k b, o.register? k = some b → ∃ r, m.register? k = some r ∧ r.Includes b
  clocks : ∀ k b, o.register? k = some b → m.version.Extends b.clock
  version : m.version.Extends o.version

theorem extends_foldl_join (regs : List (Register (Option α))) (c : Clock) :
    (regs.foldl (fun c r => c.join r.clock) c).Extends c := by
  induction regs generalizing c with
  | nil => exact .refl c
  | cons r rest ih => exact (ih _).trans (Clock.extends_join_left c r.clock)

theorem foldl_join_extends {regs : List (Register (Option α))} {r : Register (Option α)}
    (member : r ∈ regs) (c : Clock) :
    (regs.foldl (fun c r => c.join r.clock) c).Extends r.clock := by
  induction regs generalizing c with
  | nil => exact absurd member List.not_mem_nil
  | cons s rest ih =>
      rcases List.mem_cons.mp member with rfl | later
      · exact (extends_foldl_join rest _).trans (Clock.extends_join_right c r.clock)
      · exact ih later _

theorem foldl_join_eq {regs : List (Register (Option α))} {c : Clock}
    (each : ∀ r ∈ regs, c.Extends r.clock) : regs.foldl (fun c r => c.join r.clock) c = c := by
  induction regs with
  | nil => rfl
  | cons r rest ih =>
      rw [List.foldl_cons, (each r List.mem_cons_self).join_eq]
      exact ih fun s later => each s (List.mem_cons_of_mem _ later)

theorem version_merge_extends (m o : RegisterMap α) : (m.merge o).version.Extends m.version :=
  (Clock.extends_join_left _ _).trans (extends_foldl_join _ _)

theorem includes_merge_right (m o : RegisterMap α) : (m.merge o).Includes o := by
  constructor
  · intro k b found
    have merged := register?_absorb m o.registers k
    have found : o.registers.get? k = some b := found
    rw [found] at merged
    cases mine : m.register? k with
    | none =>
        rw [mine] at merged
        exact ⟨b, merged, .refl b⟩
    | some a =>
        rw [mine] at merged
        exact ⟨a.merge b, merged, Register.includes_merge_right a b⟩
  · intro k b found
    have member := mem_values_iff.mpr ⟨k, found⟩
    exact (Clock.extends_join_left _ _).trans (foldl_join_extends member m.version)
  · exact Clock.extends_join_right _ _

theorem Includes.merge (h : m.Includes o) (p : RegisterMap α) : (m.merge p).Includes o := by
  constructor
  · intro k b found
    obtain ⟨r, mine, holds⟩ := h.registers k b found
    have merged := register?_absorb m p.registers k
    rw [mine] at merged
    cases brought : p.registers.get? k with
    | none =>
        rw [brought] at merged
        exact ⟨r, merged, holds⟩
    | some c =>
        rw [brought] at merged
        exact ⟨r.merge c, merged, holds.merge c⟩
  · exact fun k b found => (version_merge_extends m p).trans (h.clocks k b found)
  · exact (version_merge_extends m p).trans h.version

theorem Includes.merge_eq (h : m.Includes o) : m.merge o = m := by
  have registers : m.registers.unionWith Register.merge o.registers = m.registers := by
    apply SortedMap.eq_of_get?
    intro k
    rw [SortedMap.get?_unionWith]
    cases found : o.registers.get? k with
    | none => cases m.registers.get? k <;> rfl
    | some b =>
        obtain ⟨r, mine, holds⟩ := h.registers k b found
        have mine : m.registers.get? k = some r := mine
        rw [mine]
        exact congrArg some holds.merge_eq
  have version : (m.absorb o.registers).version = m.version := by
    apply foldl_join_eq
    intro b member
    obtain ⟨k, found⟩ := mem_values_iff.mp member
    exact h.clocks k b found
  unfold RegisterMap.merge
  dsimp only
  rw [version, h.version.join_eq]
  unfold absorb
  rw [registers]

section LocalWrite

variable {key : String} {value : Option α} {wall : Millis}

/-- A local write takes nothing back, because its clock is past all that the map knows. -/
theorem Includes.put (h : m.Includes o) (dated : m.Dated) (put : m.put? key value wall = some m') :
    m'.Includes o := by
  obtain ⟨tick, -, registers⟩ := put?_spec put
  have grown := Clock.extends_tick tick
  constructor
  · intro k b found
    obtain ⟨r, mine, holds⟩ := h.registers k b found
    rw [registers k]
    split
    next same =>
      rw [← same, mine]
      exact ⟨_, rfl, holds.stamp (dated k r mine) tick _ _⟩
    next => exact ⟨r, mine, holds⟩
  · exact fun k b found => grown.trans (h.clocks k b found)
  · exact grown.trans h.version

theorem Dated.put (h : m.Dated) (put : m.put? key value wall = some m') : m'.Dated := by
  obtain ⟨tick, -, registers⟩ := put?_spec put
  intro k r found
  rw [registers k] at found
  split at found
  next =>
    obtain rfl := Option.some.inj found
    exact le_refl m'.version
  next => exact le_trans (h k r found) (Clock.le_tick tick)

end LocalWrite

theorem dated_empty (owner : NodeId) : (empty owner : RegisterMap α).Dated :=
  fun _ _ found => nomatch found

theorem Dated.absorb (h : m.Dated) (rs : Registers α) : (m.absorb rs).Dated := by
  have grown := le_version_absorb m rs
  intro k r found
  rcases register?_absorb_cases found with
    ⟨mine, -⟩ | ⟨-, brought⟩ | ⟨a, b, mine, brought, rfl⟩
  · exact le_trans (h k r mine) grown
  · exact clock_le_version_absorb brought m
  · intro n
    rw [Register.count_merge]
    have above := clock_le_version_absorb brought m
    exact Nat.max_le.mpr ⟨le_trans (h k a mine) grown n, above n⟩

theorem Dated.merge (h : m.Dated) (o : RegisterMap α) : (m.merge o).Dated := fun k r found =>
  le_trans (h.absorb o.registers k r found) (Clock.le_join_left _ _)

end RegisterMap

namespace Snapshot

def merge (a b : Snapshot) : Snapshot :=
  ⟨a.threats.merge b.threats, a.rules.merge b.rules, a.metrics.merge b.metrics⟩

/-- The content has taken another one in for good. -/
structure Includes (s c : Snapshot) : Prop where
  threats : s.threats.Includes c.threats
  rules : c.rules ≤ s.rules
  metrics : c.metrics ≤ s.metrics

variable {s t c : Snapshot}

theorem includes_merge_right (s c : Snapshot) : (s.merge c).Includes c :=
  ⟨RegisterMap.includes_merge_right _ _, ObservedSet.le_merge_right _ _,
    Counter.le_merge_right _ _⟩

theorem Includes.merge_eq (h : s.Includes c) : s.merge c = s := by
  unfold merge
  rw [h.threats.merge_eq, ObservedSet.merge_eq_left h.rules, Counter.merge_eq_left h.metrics]

/-- What can become of the content of a node in one step. -/
inductive Change (s : Snapshot) : Snapshot → Prop
  | none : Change s s
  | merge (c : Snapshot) : Change s (s.merge c)
  | write {key : String} {value : Option Document} {wall : Millis} {m : ThreatMap} :
      s.threats.put? key value wall = some m → Change s { s with threats := m }
  | rules {r : ObservedSet String} : s.rules ≤ r → Change s { s with rules := r }
  | metrics {k : Counter} : s.metrics ≤ k → Change s { s with metrics := k }

theorem Change.dated (change : Change s t) (dated : s.threats.Dated) : t.threats.Dated := by
  cases change with
  | none => exact dated
  | merge c => exact dated.merge c.threats
  | write put => exact dated.put put
  | rules => exact dated
  | metrics => exact dated

theorem Change.includes (change : Change s t) (dated : s.threats.Dated) (h : s.Includes c) :
    t.Includes c := by
  cases change with
  | none => exact h
  | merge d =>
      exact ⟨h.threats.merge d.threats, le_trans h.rules (ObservedSet.le_merge_left _ _),
        le_trans h.metrics (Counter.le_merge_left _ _)⟩
  | write put => exact ⟨h.threats.put dated put, h.rules, h.metrics⟩
  | rules grown => exact ⟨h.threats, le_trans h.rules grown, h.metrics⟩
  | metrics grown => exact ⟨h.threats, h.rules, le_trans h.metrics grown⟩

end Snapshot

/-- The content that a message brings. A delta claims no more knowledge than its registers have. -/
def Message.brings (m : Message) : Option Snapshot :=
  match m.payload with
  | .delta threats rules metrics =>
    some ⟨⟨threats.source, .empty, threats.changes⟩, rules.getD .empty,
      metrics.getD (.empty threats.source)⟩
  | .full text | .response text => (Snapshot.format.decode text).toOption
  | .request => none

/-- A node that handles a message merges what it brings, and answers with the version that it then
has. -/
theorem Node.snapshot_of_handle {n next : Node} {m : Message} {now : Millis} {ack : Acknowledgment}
    (handled : n.handle m now = .ok (next, ack)) :
    next.snapshot = m.brings.elim n.snapshot n.snapshot.merge ∧ ack.version = next.version := by
  obtain ⟨-, ⟨threats, rules, metrics, payload, rfl, rfl⟩ |
    ⟨text, t, payload, decoded, rfl, rfl⟩ | ⟨payload, rfl, rfl⟩⟩ := Node.handle_cases handled
  · unfold Message.brings
    rw [payload]
    refine ⟨?_, rfl⟩
    cases rules <;> cases metrics <;> rfl
  · have brings : m.brings = some t := by
      unfold Message.brings
      rcases payload with payload | payload
      all_goals
        rw [payload]
        dsimp only
        rw [decoded]
        rfl
    rw [brings]
    exact ⟨rfl, rfl⟩
  · unfold Message.brings
    rw [payload]
    exact ⟨rfl, rfl⟩

/-- What can happen to a node: an operation of its own, or a message from anyone. -/
inductive Occurrence
  | put (key : String) (d : Document) (now : Millis)
  | delete (key : String) (now : Millis)
  | addRule (rule tag : String)
  | removeRule (rule : String)
  | addMetric (amount : UInt64)
  | subtractMetric (amount : UInt64)
  | mergeSnapshot (s : Snapshot) (now : Millis)
  | receive (m : Message) (now : Millis)
  | addPeer (i : Introduction) (now : Millis)
  | refreshPeers (now : Millis)
  | recordSuccess (peer : NodeId) (acked : Clock) (now : Millis)
  | recordFailure (peer : NodeId) (now : Millis)
  | removePeer (id : NodeId)
  | evictPeers (maxAge : Nat) (now : Millis)

namespace Occurrence

/-- No peer is forgotten by it. -/
def KeepsPeers : Occurrence → Prop
  | removePeer _ | evictPeers _ _ => False
  | _ => True

end Occurrence

namespace Node

/-- What a node is after an occurrence; nothing when its clock slot is full. What is refused changes
nothing. -/
def after? (n : Node) : Occurrence → Option Node
  | .put key d now => n.putThreat? key d now
  | .delete key now => n.deleteThreat? key now
  | .addRule rule tag => some (n.addRule rule tag)
  | .removeRule rule => some (n.removeRule rule)
  | .addMetric amount => some (n.addMetric amount)
  | .subtractMetric amount => some (n.subtractMetric amount)
  | .mergeSnapshot s now => some (n.mergeSnapshot s now)
  | .receive m now => some <| match n.handle m now with
    | .ok (next, _) => next
    | .error _ => n
  | .addPeer i now => some <| match n.addPeer i now with
    | .ok next => next
    | .error _ => n
  | .refreshPeers now => some { n with peers := n.peers.refreshAll now }
  | .recordSuccess peer acked now => some (n.recordSuccess peer acked now)
  | .recordFailure peer now => some (n.recordFailure peer now)
  | .removePeer id => some (n.removePeer id)
  | .evictPeers maxAge now => some { n with peers := n.peers.evict maxAge now }

def run? (n : Node) : List Occurrence → Option Node
  | [] => some n
  | o :: rest => (n.after? o).bind (·.run? rest)

variable {n n' : Node}

/-- What each occurrence keeps, all of them keep. -/
theorem run?_induction {P : Node → Prop} {os : List Occurrence} (ran : n.run? os = some n')
    (step : ∀ o ∈ os, ∀ a b, a.after? o = some b → P a → P b) (start : P n) : P n' := by
  induction os generalizing n with
  | nil =>
      obtain rfl := Option.some.inj ran
      exact start
  | cons o rest ih =>
      obtain ⟨next, after, ran⟩ := Option.bind_eq_some_iff.mp ran
      apply ih ran
      · exact fun p later => step p (List.mem_cons_of_mem _ later)
      · exact step o List.mem_cons_self n next after start

theorem change_of_handle {m : Message} {now : Millis} {ack : Acknowledgment}
    (handled : n.handle m now = .ok (n', ack)) : n.snapshot.Change n'.snapshot := by
  rw [(snapshot_of_handle handled).1]
  cases m.brings with
  | none => exact .none
  | some c => exact .merge c

theorem contains_of_handle {m : Message} {now : Millis} {ack : Acknowledgment} {id : NodeId}
    (handled : n.handle m now = .ok (n', ack)) (known : n.peers.contains id = true) :
    n'.peers.contains id = true := by
  refine keeps_of_handle handled (P := fun r => r.contains id = true) ?_ ?_ known
  · exact fun r => (Roster.contains_adjust _ _).mpr
  · exact fun r => (Roster.contains_adjust _ _).mpr

/-- All that an occurrence can do: the name stays, the content changes in one of a few ways, and the
peers stay unless it forgets some. -/
theorem after_spec {o : Occurrence} (after : n.after? o = some n') :
    n'.id = n.id ∧ n.snapshot.Change n'.snapshot ∧
      (o.KeepsPeers → ∀ q, n.peers.contains q = true → n'.peers.contains q = true) := by
  cases o with
  | put key d now =>
      obtain ⟨m, put, rfl⟩ := Option.map_eq_some_iff.mp after
      exact ⟨rfl, .write put, fun _ _ known => known⟩
  | delete key now =>
      obtain ⟨m, put, rfl⟩ := Option.map_eq_some_iff.mp after
      exact ⟨rfl, .write put, fun _ _ known => known⟩
  | addRule rule tag =>
      obtain rfl := Option.some.inj after
      exact ⟨rfl, .rules (ObservedSet.le_insert _ rule tag), fun _ _ known => known⟩
  | removeRule rule =>
      obtain rfl := Option.some.inj after
      exact ⟨rfl, .rules (ObservedSet.le_erase _ rule), fun _ _ known => known⟩
  | addMetric amount =>
      obtain rfl := Option.some.inj after
      exact ⟨rfl, .metrics (Counter.le_add _ amount), fun _ _ known => known⟩
  | subtractMetric amount =>
      obtain rfl := Option.some.inj after
      exact ⟨rfl, .metrics (Counter.le_subtract _ amount), fun _ _ known => known⟩
  | mergeSnapshot s now =>
      obtain rfl := Option.some.inj after
      exact ⟨rfl, .merge s, fun _ _ known => known⟩
  | receive m now =>
      obtain rfl := Option.some.inj after
      split
      next handled =>
        exact ⟨id_of_handle handled, change_of_handle handled,
          fun _ _ => contains_of_handle handled⟩
      next => exact ⟨rfl, .none, fun _ _ known => known⟩
  | addPeer i now =>
      obtain rfl := Option.some.inj after
      split
      next added =>
        obtain ⟨peers, registered, rfl⟩ := addPeer_spec added
        exact ⟨rfl, .none, fun _ _ => Roster.contains_of_register registered⟩
      next => exact ⟨rfl, .none, fun _ _ known => known⟩
  | refreshPeers now =>
      obtain rfl := Option.some.inj after
      exact ⟨rfl, .none, fun _ _ => (Roster.contains_refreshAll now).mpr⟩
  | recordSuccess | recordFailure =>
      obtain rfl := Option.some.inj after
      exact ⟨rfl, .none, fun _ _ => (Roster.contains_adjust _ _).mpr⟩
  | removePeer | evictPeers =>
      obtain rfl := Option.some.inj after
      exact ⟨rfl, .none, fun keeps => keeps.elim⟩

section Runs

variable {os : List Occurrence}

theorem dated_of_run (ran : n.run? os = some n') (dated : n.threats.Dated) : n'.threats.Dated :=
  run?_induction (P := fun a => a.threats.Dated) ran
    (fun _ _ _ _ after => (after_spec after).2.1.dated) dated

/-- Content that has been taken in stays so. -/
theorem includes_of_run {c : Snapshot} (ran : n.run? os = some n') (dated : n.threats.Dated)
    (taken : n.snapshot.Includes c) : n'.snapshot.Includes c := by
  have kept : n'.threats.Dated ∧ n'.snapshot.Includes c := by
    apply run?_induction (P := fun a => a.threats.Dated ∧ a.snapshot.Includes c) ran
    · intro o _ a b after held
      obtain ⟨-, change, -⟩ := after_spec after
      exact ⟨change.dated held.1, change.includes held.1 held.2⟩
    · exact ⟨dated, taken⟩
  exact kept.2

/-- A node that forgets no peer accepts what it has accepted. -/
theorem accepts_of_run {m : Message} (ran : n.run? os = some n')
    (keeps : ∀ o ∈ os, o.KeepsPeers) (accepts : n.Accepts m) : n'.Accepts m := by
  apply run?_induction (P := fun a => a.Accepts m) ran
  · intro o member a b after held
    obtain ⟨same, -, peers⟩ := after_spec after
    have known := peers (keeps o member) m.sender held.known
    exact ⟨held.named, same ▸ held.foreign, known, same ▸ held.addressed, held.readable⟩
  · exact accepts

end Runs

/-- A message that a node has handled changes nothing when it comes again. This holds for whatever
the message says, whatever the node had done and been sent before, and whatever it does and is sent
in between, as long as no clock slot overflows and the sender is not forgotten. -/
theorem redelivery_changes_nothing {id : NodeId} {before between : List Occurrence}
    {n first last : Node} {m : Message} {now : Millis} {ack : Acknowledgment}
    (reached : (Node.empty id).run? before = some n) (handled : n.handle m now = .ok (first, ack))
    (followed : first.run? between = some last) (keeps : ∀ o ∈ between, o.KeepsPeers)
    (later : Millis) : ∃ again ack', last.handle m later = .ok (again, ack') ∧
      again.threats = last.threats ∧ again.rules = last.rules ∧ again.metrics = last.metrics ∧
      ack'.version = last.version := by
  have dated := dated_of_run reached (RegisterMap.dated_empty id)
  have dated' : first.threats.Dated := (change_of_handle handled).dated dated
  have accepted : first.Accepts m := by
    obtain ⟨named, foreign, known, addressed, readable⟩ := (handle_cases handled).1
    have same := id_of_handle handled
    exact ⟨named, same ▸ foreign, contains_of_handle handled known, same ▸ addressed, readable⟩
  obtain ⟨again, ack', handled'⟩ :=
    handle_eq_ok_iff.mpr (accepts_iff.mp (accepts_of_run followed keeps accepted))
  obtain ⟨merged, -⟩ := snapshot_of_handle handled
  obtain ⟨merged', acked⟩ := snapshot_of_handle handled'
  have same : again.snapshot = last.snapshot := by
    rw [merged']
    cases brings : m.brings with
    | none => rfl
    | some c =>
        rw [brings] at merged
        have taken : first.snapshot.Includes c := by
          rw [merged]
          exact Snapshot.includes_merge_right _ _
        exact (includes_of_run followed dated' taken).merge_eq
  have threats : again.threats = last.threats := congrArg Snapshot.threats same
  refine ⟨again, ack', handled', threats, congrArg Snapshot.rules same,
    congrArg Snapshot.metrics same, ?_⟩
  rw [acked, version, version, threats]

/-- A delta that no run of honest nodes sends: its deletion bears the greatest timestamp, one of its
slots is at zero, and it removes a rule without any tag. -/
def contrived : Message :=
  ⟨"a", "", 0, .empty, .delta
    ⟨"a", 0, .ofList [("k", ⟨none, maxCount, .ofList [("a", 0), ("b", 7)], "z"⟩)]⟩
    (some ⟨.ofList [("r", .ofList ["t"])], .ofList [("q", .empty)]⟩)
    (some ⟨⟨"z", .ofList [("b", 0)]⟩, .empty "z"⟩)⟩

/-- The key is written over, the rule removed, and a delta with a concurrent deletion taken in. -/
def interlude : List Occurrence :=
  [.put "k" (.ofTree (.boolean true)) 2, .removeRule "r",
    .receive { contrived with
      payload := .delta ⟨"a", 0, .ofList [("k", ⟨none, 3, .ofList [("c", 1)], "c"⟩)]⟩ none none } 3]

theorem contrived_redelivered : ∃ n first last again ack ack',
    (Node.empty "b").run? [.addPeer ⟨"a", "a:1", [], none⟩ 0] = some n ∧
    n.handle contrived 1 = .ok (first, ack) ∧ first.run? interlude = some last ∧
    last.handle contrived 4 = .ok (again, ack') ∧
    again.threats = last.threats ∧ again.rules = last.rules ∧ again.metrics = last.metrics ∧
    ack'.version = last.version := by
  have reached : (Node.empty "b").run? [.addPeer ⟨"a", "a:1", [], none⟩ 0] = some _ := rfl
  have keeps : ∀ o ∈ interlude, o.KeepsPeers := by simp [interlude, Occurrence.KeepsPeers]
  obtain ⟨again, ack', handled, unchanged⟩ := redelivery_changes_nothing reached
    (show Node.handle _ contrived 1 = .ok _ from rfl)
    (show Node.run? _ interlude = some _ from rfl) keeps 4
  exact ⟨_, _, _, again, _, ack', reached, rfl, rfl, handled, unchanged⟩

end Node

end ThreatGossip

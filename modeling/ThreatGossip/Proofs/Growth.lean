import ThreatGossip.Proofs.Versions
/-!
State only grows. Whatever a node does and whatever it is sent, its version and the clocks of its
registers do not fall back, no register or tag disappears, no slot of a counter sinks, and what it
takes a peer to know is not taken back while the peer stays registered.
-/
namespace ThreatGossip

namespace Register

variable {α : Type} {r s t : Register α}

/-- What may come after a register: one whose clock has not fallen back and, where the clock is
still the same, with the same write on show or one of a greater rank. -/
structure Succeeds (s r : Register α) : Prop where
  clock : s.clock.descends r.clock = true
  level : s.clock.alike r.clock = true → { s with clock := r.clock } = r ∨ s.outranks r = true

theorem Succeeds.refl (r : Register α) : r.Succeeds r :=
  ⟨Clock.descends_iff.mpr (le_refl _), fun _ => .inl rfl⟩

theorem succeeds_of_lt (later : r.clock < s.clock) : s.Succeeds r := by
  refine ⟨Clock.descends_iff.mpr later.le, fun same => ?_⟩
  exact absurd (Clock.alike_iff_le.mp same).2 (not_le_of_gt later)

theorem rank_withClock (r : Register α) (c : Clock) : { r with clock := c }.rank = r.rank := rfl

theorem Succeeds.trans (first : s.Succeeds r) (second : t.Succeeds s) : t.Succeeds r := by
  have low := Clock.descends_iff.mp first.clock
  have high := Clock.descends_iff.mp second.clock
  refine ⟨Clock.descends_iff.mpr (le_trans low high), fun same => ?_⟩
  -- A clock between two that are alike is like both.
  have back := (Clock.alike_iff_le.mp same).2
  have lower := first.level (Clock.alike_iff_le.mpr ⟨low, le_trans high back⟩)
  have upper := second.level (Clock.alike_iff_le.mpr ⟨high, le_trans back low⟩)
  rcases lower with kept | above
  · rcases upper with kept' | above'
    · left
      rw [← kept, ← kept']
    · right
      rw [outranks_iff, ← kept, rank_withClock]
      exact outranks_iff.mp above'
  · right
    rw [outranks_iff]
    refine lt_of_lt_of_le (outranks_iff.mp above) ?_
    rcases upper with kept' | above'
    · rw [← kept', rank_withClock]
    · exact (outranks_iff.mp above').le

theorem succeeds_merge (a b : Register α) : (a.merge b).Succeeds a := by
  have grown : a.clock ≤ (a.merge b).clock := fun n => by
    rw [count_merge]
    exact Nat.le_max_left _ _
  refine ⟨Clock.descends_iff.mpr grown, fun same => ?_⟩
  have known : b.clock ≤ a.clock := fun n => by
    have counts := Clock.alike_iff.mp same n
    rw [count_merge] at counts
    omega
  unfold Register.merge
  split
  next => exact .inl rfl
  next =>
    split
    next adopted =>
      rcases Bool.or_eq_true _ _ ▸ adopted with before | above
      · exact absurd known (Clock.before_iff.mp before).2
      · exact .inr above
    next => exact .inl rfl

end Register

namespace RegisterMap

variable {α : Type} {m m' m'' : RegisterMap α}

/-- What may come after a map: no register disappears, and neither they nor the version fall
back. -/
structure Succeeds (m' m : RegisterMap α) : Prop where
  version : m'.version.descends m.version = true
  registers : ∀ k r, m.register? k = some r → ∃ s, m'.register? k = some s ∧ s.Succeeds r

theorem Succeeds.refl (m : RegisterMap α) : m.Succeeds m :=
  ⟨Clock.descends_iff.mpr (le_refl _), fun _ r found => ⟨r, found, .refl r⟩⟩

theorem Succeeds.trans (first : m'.Succeeds m) (second : m''.Succeeds m') : m''.Succeeds m := by
  constructor
  · have low := Clock.descends_iff.mp first.version
    exact Clock.descends_iff.mpr (le_trans low (Clock.descends_iff.mp second.version))
  · intro k r found
    obtain ⟨s, stood, lower⟩ := first.registers k r found
    obtain ⟨t, stands, upper⟩ := second.registers k s stood
    exact ⟨t, stands, lower.trans upper⟩

theorem succeeds_put {key : String} {value : Option α} {wall : Millis} (dated : m.Dated)
    (put : m.put? key value wall = some m') : m'.Succeeds m := by
  obtain ⟨tick, -, registers⟩ := put?_spec put
  refine ⟨Clock.descends_iff.mpr (Clock.le_tick tick), fun k r found => ?_⟩
  rw [registers k]
  split
  next same =>
    have later : r.clock < m'.version := lt_of_le_of_lt (dated k r found) (Clock.lt_tick tick)
    exact ⟨_, rfl, Register.succeeds_of_lt later⟩
  next => exact ⟨r, found, .refl r⟩

theorem succeeds_merge (m o : RegisterMap α) : (m.merge o).Succeeds m := by
  refine ⟨Clock.descends_iff.mpr (version_merge_extends m o).le, fun k r found => ?_⟩
  change ∃ s, (m.absorb o.registers).register? k = some s ∧ s.Succeeds r
  rw [register?_absorb, found]
  cases o.registers.get? k with
  | none => exact ⟨r, rfl, .refl r⟩
  | some b => exact ⟨r.merge b, rfl, Register.succeeds_merge r b⟩

end RegisterMap

namespace Snapshot

variable {s t u : Snapshot}

/-- What may come after some content: a later map, no fewer tags on either side of the rules, and
no lower slot in either counter. -/
structure Succeeds (t s : Snapshot) : Prop where
  threats : t.threats.Succeeds s.threats
  rules : s.rules ≤ t.rules
  metrics : s.metrics ≤ t.metrics

theorem Succeeds.refl (s : Snapshot) : s.Succeeds s := ⟨.refl _, le_refl _, le_refl _⟩

theorem Succeeds.trans (first : t.Succeeds s) (second : u.Succeeds t) : u.Succeeds s :=
  ⟨first.threats.trans second.threats, le_trans first.rules second.rules,
    le_trans first.metrics second.metrics⟩

theorem Change.succeeds (change : s.Change t) (dated : s.threats.Dated) : t.Succeeds s := by
  cases change with
  | none => exact .refl s
  | merge c =>
      exact ⟨RegisterMap.succeeds_merge _ _, ObservedSet.le_merge_left _ _,
        Counter.le_merge_left _ _⟩
  | write put => exact ⟨RegisterMap.succeeds_put dated put, le_refl _, le_refl _⟩
  | rules grown => exact ⟨.refl _, grown, le_refl _⟩
  | metrics grown => exact ⟨.refl _, le_refl _, grown⟩

end Snapshot

namespace Roster

variable {r r' r'' : Roster}

/-- What may come after a roster: for no peer that is still there is less taken to be known. -/
def Succeeds (r' r : Roster) : Prop :=
  ∀ q p p', r.get? q = some p → r'.get? q = some p' → p'.version.descends p.version = true

theorem Succeeds.refl (r : Roster) : r.Succeeds r := by
  intro q p p' known known'
  obtain rfl := Option.some.inj (known.symm.trans known')
  exact Clock.descends_iff.mpr (le_refl _)

/-- A peer that was gone in between would start anew, so the middle roster must have kept all. -/
theorem Succeeds.trans (first : r'.Succeeds r) (second : r''.Succeeds r')
    (keeps : ∀ q, r.contains q = true → r'.contains q = true) : r''.Succeeds r := by
  intro q p p'' known known''
  obtain ⟨p', known'⟩ := contains_iff.mp (keeps q (contains_iff.mpr ⟨p, known⟩))
  have low := Clock.descends_iff.mp (first q p p' known known')
  exact Clock.descends_iff.mpr
    (le_trans low (Clock.descends_iff.mp (second q p' p'' known' known'')))

theorem succeeds_adjust (r : Roster) (id : NodeId) {f : Peer → Peer}
    (grows : ∀ p, p.version ≤ (f p).version) : (r.adjust id f).Succeeds r := by
  intro q p p' known known'
  rw [get?_adjust] at known'
  split at known'
  next same =>
    rw [← same, known] at known'
    obtain rfl := Option.some.inj known'
    exact Clock.descends_iff.mpr (grows p)
  next => exact Succeeds.refl r q p p' known known'

theorem succeeds_refreshAll (r : Roster) (now : Millis) : (r.refreshAll now).Succeeds r := by
  intro q p p' known known'
  rw [Roster.get?_refreshAll, known] at known'
  obtain rfl := Option.some.inj known'
  exact Clock.descends_iff.mpr (le_refl p.version)

theorem succeeds_filter (r : Roster) (keep : NodeId → Peer → Bool) :
    ({ r with peers := r.peers.filter keep } : Roster).Succeeds r := by
  intro q p p' known known'
  rw [Roster.get?, SortedMap.get?_filter] at known'
  exact Succeeds.refl r q p p' known (Option.filter_eq_some_iff.mp known').1

theorem succeeds_register {i : Introduction} {now : Millis}
    (registered : r.register i now = .ok r') : r'.Succeeds r := by
  obtain ⟨-, -, entry, rfl, version⟩ := register_spec registered
  intro q p p' known known'
  rw [Roster.get?, SortedMap.get?_insert] at known'
  split at known'
  next same =>
    obtain rfl := Option.some.inj known'
    rw [version?, ← same, known] at version
    rw [version]
    exact Clock.descends_iff.mpr (le_refl p.version)
  next => exact Succeeds.refl r q p p' known known'

end Roster

namespace Node

variable {n n' n'' : Node} {os : List Occurrence}

/-- What may come after a node. -/
structure Succeeds (n' n : Node) : Prop where
  content : n'.snapshot.Succeeds n.snapshot
  peers : n'.peers.Succeeds n.peers

theorem Succeeds.refl (n : Node) : n.Succeeds n := ⟨.refl _, .refl _⟩

theorem peers_succeed_of_handle {m : Message} {now : Millis} {ack : Acknowledgment}
    (handled : n.handle m now = .ok (n', ack)) : n'.peers.Succeeds n.peers := by
  have touched := n.peers.succeeds_adjust m.sender (f := (·.touch now)) fun p => le_refl p.version
  rcases peers_of_handle handled with ⟨-, peers⟩ | ⟨-, peers⟩
  · rw [peers]
    exact touched
  · rw [peers]
    refine touched.trans ?_ fun q => (Roster.contains_adjust _ _).mpr
    exact Roster.succeeds_adjust _ _ fun p => Clock.le_join_left _ _

theorem peers_succeed_of_after {o : Occurrence} (after : n.after? o = some n') :
    n'.peers.Succeeds n.peers := by
  cases o with
  | put | delete =>
      obtain ⟨m, -, rfl⟩ := Option.map_eq_some_iff.mp after
      exact .refl n.peers
  | addRule | removeRule | addMetric | subtractMetric | mergeSnapshot =>
      obtain rfl := Option.some.inj after
      exact .refl n.peers
  | receive m now =>
      obtain rfl := Option.some.inj after
      split
      next handled => exact peers_succeed_of_handle handled
      next => exact .refl n.peers
  | addPeer i now =>
      obtain rfl := Option.some.inj after
      split
      next added =>
        obtain ⟨peers, registered, rfl⟩ := addPeer_spec added
        exact Roster.succeeds_register registered
      next => exact .refl n.peers
  | refreshPeers now =>
      obtain rfl := Option.some.inj after
      exact n.peers.succeeds_refreshAll now
  | recordSuccess peer acked now =>
      obtain rfl := Option.some.inj after
      exact Roster.succeeds_adjust _ _ fun p => Clock.le_join_left _ _
  | recordFailure peer now =>
      obtain rfl := Option.some.inj after
      exact Roster.succeeds_adjust _ _ fun p => le_refl p.version
  | removePeer | evictPeers =>
      obtain rfl := Option.some.inj after
      exact n.peers.succeeds_filter _

theorem succeeds_after {o : Occurrence} (dated : n.threats.Dated) (after : n.after? o = some n') :
    n'.Succeeds n :=
  ⟨(after_spec after).2.1.succeeds dated, peers_succeed_of_after after⟩

/-- A run succeeds what it starts from, unless it forgets a peer before its end. -/
theorem succeeds_run (dated : n.threats.Dated) (ran : n.run? os = some n')
    (keeps : ∀ o ∈ os.dropLast, o.KeepsPeers) : n'.Succeeds n := by
  induction os generalizing n with
  | nil =>
      obtain rfl := Option.some.inj ran
      exact .refl n
  | cons o rest ih =>
      obtain ⟨next, after, ran⟩ := Option.bind_eq_some_iff.mp ran
      have first := succeeds_after dated after
      obtain ⟨-, change, contains⟩ := after_spec after
      cases rest with
      | nil =>
          obtain rfl := Option.some.inj ran
          exact first
      | cons o' rest =>
          have second := ih (change.dated dated) ran fun p member =>
            keeps p (List.mem_cons_of_mem _ member)
          exact ⟨first.content.trans second.content,
            first.peers.trans second.peers (contains (keeps o List.mem_cons_self))⟩

theorem Step.succeeds (step : n.Step n') (dated : n.threats.Dated) : n'.Succeeds n := by
  obtain ⟨os, ran, keeps⟩ := step.occurrences
  exact succeeds_run dated ran keeps

/-- Whatever a node has been through, each further step only lets it grow, and so does any number of
them, as far as the content goes. A peer that is forgotten and registered again starts anew. -/
theorem state_only_grows {id : NodeId} {n : Node} (reached : Reached id n) :
    (∀ n', n.Step n' → n'.Succeeds n) ∧
    ∀ n', Relation.ReflTransGen Step n n' → n'.snapshot.Succeeds n.snapshot := by
  refine ⟨fun n' step => step.succeeds reached.dated, fun n' steps => ?_⟩
  induction steps with
  | refl => exact .refl n.snapshot
  | tail earlier step ih =>
      have later : Reached id _ := reached.trans earlier
      exact ih.trans (step.succeeds later.dated).content

/-- The reply to a pull, and an acknowledgment that claims more than the reply brings. -/
def overclaim : Acknowledgment :=
  ⟨"synced", .ofList [("a", 0), ("b", 8)],
    some ⟨"a", "b", 0, .ofList [("a", 3)], .response (Snapshot.format.encode Node.inflated)⟩⟩

/-- A write is overtaken by a contrived deletion, and then a pull ends in an overclaim. -/
theorem overclaim_only_grows : ∃ n n' n'', Reached "b" n ∧ n.threats.get? "k" ≠ none ∧ n.Step n' ∧
    n'.threats.get? "k" = none ∧ n'.Step n'' ∧ n'.Succeeds n ∧ n''.Succeeds n' ∧
    n''.snapshot.Succeeds n.snapshot := by
  have joined : Reached "b" _ := .single (.occurs (.addPeer ⟨"a", "a:1", [], none⟩ 0) rfl)
  have reached : Reached "b" _ :=
    joined.tail (.occurs (.put "k" (.ofTree (.boolean true)) 1) rfl)
  have grows {n n' n'' : Node} (reached : Reached "b" n) (first : n.Step n')
      (second : n'.Step n'') :
      n'.Succeeds n ∧ n''.Succeeds n' ∧ n''.snapshot.Succeeds n.snapshot :=
    ⟨(state_only_grows reached).1 n' first, (state_only_grows (reached.tail first)).1 n'' second,
      (state_only_grows reached).2 n'' (.tail (.single first) second)⟩
  refine ⟨_, _, _, reached, ?_, .occurs (.receive contrived 2) rfl, ?_,
    .exchange .pull "a" 3 (.ok overclaim), ?_⟩
  · decide
  · decide
  · exact grows reached (.occurs (.receive contrived 2) rfl)
      (.exchange .pull "a" 3 (.ok overclaim))

end Node

end ThreatGossip

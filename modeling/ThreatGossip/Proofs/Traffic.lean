import Mathlib.Order.Bounds.Basic
import ThreatGossip.Proofs.Completeness
import ThreatGossip.Proofs.Winners
/-!
Fleets without local writes. When every text is read as what was written, a node that takes a letter
in ends up with the join of its own content and the content that the letter speaks of. So traffic
loses nothing, and what bounds all states of a fleet goes on to bound them.
-/
namespace ThreatGossip

open Json (Document)

/-- A node takes in the content of another: registers that are all it lacks, and the joined version,
rules and metrics. -/
structure Node.Absorbs (n o next : Node) : Prop where
  registers : ∃ rs, RegisterMap.Carries rs o.threats n.version ∧
    (∀ k r, rs.get? k = some r → o.threats.register? k = some r) ∧
    ∀ k, next.threats.register? k = (n.threats.absorb rs).register? k
  counts : ∀ id, next.version.count id = max (n.version.count id) (o.version.count id)
  rules : next.rules = n.rules.merge o.rules
  metrics : next.metrics = n.metrics.merge o.metrics

namespace Node.Absorbs

variable {n o next : Node}

theorem isLUB (h : n.Absorbs o next) : IsLUB {n.snapshot, o.snapshot} next.snapshot := by
  have rules : next.snapshot.rules = n.rules.merge o.rules := h.rules
  have metrics : next.snapshot.metrics = n.metrics.merge o.metrics := h.metrics
  constructor
  · rintro s (rfl | rfl)
    · refine ⟨fun id => (h.counts id).symm ▸ Nat.le_max_left _ _, ?_, ?_⟩
      · rw [rules]
        exact ObservedSet.le_merge_left _ _
      · rw [metrics]
        exact Counter.le_merge_left _ _
    · refine ⟨fun id => (h.counts id).symm ▸ Nat.le_max_right _ _, ?_, ?_⟩
      · rw [rules]
        exact ObservedSet.le_merge_right _ _
      · rw [metrics]
        exact Counter.le_merge_right _ _
  · intro s above
    have mine : n.snapshot ≤ s := above (.inl rfl)
    have theirs : o.snapshot ≤ s := above (.inr rfl)
    refine ⟨fun id => (h.counts id).symm ▸ Nat.max_le.mpr ⟨mine.1 id, theirs.1 id⟩, ?_, ?_⟩
    · rw [rules]
      exact ObservedSet.merge_le mine.2.1 theirs.2.1
    · rw [metrics]
      exact Counter.merge_le mine.2.2 theirs.2.2

theorem le_right (h : n.Absorbs o next) : o.snapshot ≤ next.snapshot := h.isLUB.1 (.inr rfl)

theorem le (h : n.Absorbs o next) {bound : Snapshot} (left : n.snapshot ≤ bound)
    (right : o.snapshot ≤ bound) : next.snapshot ≤ bound := by
  refine h.isLUB.2 ?_
  rintro s (rfl | rfl)
  · exact left
  · exact right

theorem shows (h : n.Absorbs o next) {log : List (Write Document)} (coherent : Coherent log)
    (ranked : Ranked log) (tn : n.threats.Tracks log) (tracks : o.threats.Tracks log)
    (mine : n.threats.Shows log) (theirs : o.threats.Shows log) : next.threats.Shows log := by
  obtain ⟨rs, carries, copied, registers⟩ := h.registers
  exact mine.union coherent ranked tn tracks theirs carries copied registers h.counts

end Node.Absorbs

namespace Fleet

/-- Every text in the fleet is read as what was written. -/
structure Faithful (s : Fleet) : Prop where
  messages : ∀ l ∈ s.sent,
    Message.format.decode (Message.format.encode l.message) = .ok l.message
  states : ∀ l ∈ s.sent, ∀ text,
    l.message.payload = .full text ∨ l.message.payload = .response text →
    Snapshot.format.decode text = .ok l.origin.snapshot

theorem Faithful.mono {s t : Fleet} (h : t.Faithful) (sub : s.sent ⊆ t.sent) : s.Faithful :=
  ⟨fun l member => h.messages l (sub member), fun l member => h.states l (sub member)⟩

section Steps

variable {s t : Fleet} {n next : Node}

theorem Traffic.log_eq (step : Traffic s t) : t.log = s.log := by
  cases step <;> rfl

theorem Traffic.sent_subset (step : Traffic s t) : s.sent ⊆ t.sent := by
  intro l member
  cases step with
  | delta | full | request => exact Set.mem_insert_of_mem _ member
  | deliver | respond => exact Set.mem_union_left _ member
  | addPeer | removePeer | refresh | evict | fail | book => exact member

/-- A letter that is no request brings the content of the state that it speaks of. -/
theorem Invariant.absorbs (inv : Invariant s) (faithful : s.Faithful) (has : s.Has n) {l : Letter}
    (member : l ∈ s.sent) {now : Millis} {ack : Acknowledgment}
    (handled : n.handle l.message now = .ok (next, ack)) :
    (l.message.payload = .request ∧ next.snapshot = n.snapshot) ∨ n.Absorbs l.origin next := by
  obtain ⟨origin, genuine⟩ := inv.sent l member
  obtain ⟨-, theirs, -⟩ := inv.past _ origin
  have speaks := genuine.speaks
  obtain ⟨accepted, ⟨threats, rules, metrics, payload, rfl, -⟩ |
    ⟨text, t, payload, decoded, rfl, -⟩ | ⟨payload, rfl, -⟩⟩ := Node.handle_cases handled
  · rw [payload] at speaks
    cases speaks with
    | delta at_time named known =>
        have here : l.message.recipient = n.id := accepted.addressed.resolve_left named
        rw [here, version_of_has has] at known
        have carries := (RegisterMap.carries_delta l.origin.threats _ at_time).mono known
        refine .inr ⟨⟨_, carries, ?_, fun _ => rfl⟩, ?_, rfl, rfl⟩
        · exact fun _ _ => RegisterMap.delta_changes_some
        · exact carries.count_version theirs inv.coherent
  · obtain rfl := Except.ok.inj (decoded.symm.trans (faithful.states l member text payload))
    have same := RegisterMap.SameClocks.refl l.origin.threats
    refine .inr ⟨⟨_, same.carries _, fun _ _ found => found, fun _ => rfl⟩, ?_, rfl, rfl⟩
    exact RegisterMap.count_version_merge same theirs inv.coherent
  · exact .inl ⟨payload, rfl⟩

/-- A node keeps its content, or takes in that of an earlier state. -/
def Moves (s : Fleet) (n next : Node) : Prop :=
  next.id = n.id ∧ (next.snapshot = n.snapshot ∨ ∃ o ∈ s.past, n.Absorbs o next)

theorem Invariant.moves (inv : Invariant s) (faithful : s.Faithful) (has : s.Has n) {l : Letter}
    (member : l ∈ s.sent) {now : Millis} {ack : Acknowledgment}
    (handled : n.handle l.message now = .ok (next, ack)) : s.Moves n next := by
  refine ⟨Node.id_of_handle handled, ?_⟩
  rcases inv.absorbs faithful has member handled with ⟨-, same⟩ | absorbs
  · exact .inl same
  · exact .inr ⟨l.origin, (inv.sent l member).1, absorbs⟩

/-- What traffic does to the states of nodes: nothing, or one node moves. -/
theorem Traffic.change (inv : Invariant s) (faithful : s.Faithful) (step : Traffic s t) :
    (t.nodes = s.nodes ∧ t.past = s.past) ∨ ∃ n next, s.Has n ∧ s.Moves n next ∧
      t.nodes = s.nodes.insert next.id next ∧ t.past = insert next s.past := by
  cases step with
  | addPeer i now has added =>
      obtain ⟨peers, -, rfl⟩ := Node.addPeer_spec added
      refine .inr ⟨_, _, has, ?_, rfl, rfl⟩
      exact ⟨rfl, .inl rfl⟩
  | removePeer id has =>
      refine .inr ⟨_, _, has, ?_, rfl, rfl⟩
      exact ⟨rfl, .inl rfl⟩
  | refresh now has =>
      refine .inr ⟨_, _, has, ?_, rfl, rfl⟩
      exact ⟨rfl, .inl rfl⟩
  | evict maxAge now has =>
      refine .inr ⟨_, _, has, ?_, rfl, rfl⟩
      exact ⟨rfl, .inl rfl⟩
  | fail peer now has =>
      refine .inr ⟨_, _, has, ?_, rfl, rfl⟩
      exact ⟨rfl, .inl rfl⟩
  | delta now has built => exact .inl ⟨rfl, rfl⟩
  | full peer now has earlier same => exact .inl ⟨rfl, rfl⟩
  | request peer now has => exact .inl ⟨rfl, rfl⟩
  | deliver now has member handled =>
      exact .inr ⟨_, _, has, inv.moves faithful has member handled, rfl, rfl⟩
  | respond now has member request handled earlier same =>
      exact .inr ⟨_, _, has, inv.moves faithful has member handled, rfl, rfl⟩
  | book now has given =>
      refine .inr ⟨_, _, has, ?_, rfl, rfl⟩
      exact ⟨rfl, .inl rfl⟩

theorem Traffic.below (inv : Invariant s) (faithful : s.Faithful) (step : Traffic s t)
    {bound : Snapshot} (below : ∀ m ∈ s.past, m.snapshot ≤ bound) :
    ∀ m ∈ t.past, m.snapshot ≤ bound := by
  rcases step.change inv faithful with ⟨-, past⟩ | ⟨n, next, has, ⟨-, moves⟩, -, past⟩
  · rw [past]
    exact below
  · rw [past]
    rintro m (rfl | old)
    · have mine := below n (inv.present n has)
      rcases moves with same | ⟨o, earlier, absorbs⟩
      · rw [same]
        exact mine
      · exact absorbs.le mine (below o earlier)
    · exact below m old

theorem Traffic.names (inv : Invariant s) (faithful : s.Faithful) (step : Traffic s t) {m : Node}
    (has : t.Has m) : ∃ a, s.Has a ∧ a.id = m.id := by
  unfold Has at has
  rcases step.change inv faithful with ⟨nodes, -⟩ | ⟨n, next, here, ⟨same, -⟩, nodes, -⟩
  · rw [nodes] at has
    exact ⟨m, has, rfl⟩
  · rw [nodes, SortedMap.get?_insert] at has
    split at has
    next moved => exact ⟨n, here, (moved.trans same).symm⟩
    next => exact ⟨m, has, rfl⟩

theorem Traffic.past_subset (inv : Invariant s) (faithful : s.Faithful) (step : Traffic s t) :
    s.past ⊆ t.past := by
  rcases step.change inv faithful with ⟨-, past⟩ | ⟨n, next, -, -, -, past⟩
  · exact past.ge
  · rw [past]
    exact Set.subset_insert _ _

end Steps

end Fleet

end ThreatGossip

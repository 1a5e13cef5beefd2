import ThreatGossip.Proofs.Json.Replicas
import ThreatGossip.Proofs.Quiescence
/-!
Convergence of fleets. Once every node has been reached from every other one in a quiet time, each
holds the same threats, rules and metrics.
-/
namespace ThreatGossip

open Json (Document Format)

namespace SortedMap

variable {κ β : Type} [Ord κ] [Std.TransOrd κ]

theorem alikeWith_self {p : β → β → Bool} {m : SortedMap κ β}
    (same : ∀ k v, (k, v) ∈ m.entries → p v v = true) : m.alikeWith p m = true := by
  rw [alikeWith, beq_self_eq_true, Bool.true_and, List.all_eq_true]
  rintro ⟨x, y⟩ member
  rw [List.zip, List.zipWith_self] at member
  obtain ⟨e, listed, pair⟩ := List.mem_map.mp member
  obtain ⟨rfl, rfl⟩ := Prod.mk.inj pair
  change (compare e.1 e.1 == .eq && p e.2 e.2) = true
  rw [Std.ReflOrd.compare_self, same e.1 e.2 listed]
  rfl

end SortedMap

/-- Replicas with alike versions and the same registers are in the same state. -/
theorem RegisterMap.sameState_of_eq {α : Type} {same : α → α → Bool} {a b : RegisterMap α}
    (alike : ∀ n, a.version.count n = b.version.count n) (registers : a.registers = b.registers)
    (equal : ∀ k r v, a.register? k = some r → r.value = some v → same v v = true) :
    a.sameState same b = true := by
  unfold sameState
  rw [Clock.alike_iff.mpr alike, ← registers, Bool.true_and]
  refine SortedMap.alikeWith_self fun k r listed => ?_
  have found : a.register? k = some r := SortedMap.get?_eq_some_iff.mpr listed
  have clocks : r.clock.alike r.clock = true := Clock.alike_iff.mpr fun _ => rfl
  simp only [Register.alike, clocks, beq_self_eq_true, Bool.and_true]
  cases value : r.value with
  | none => rfl
  | some v => exact equal k r v found value

/-- What is shown was written, so only written values need to equal themselves. -/
theorem RegisterMap.Shows.sameState {α : Type} {same : α → α → Bool} {log : List (Write α)}
    {a b : RegisterMap α} (shows : a.Shows log)
    (equal : ∀ w ∈ log, ∀ v, w.register.value = some v → same v v = true)
    (alike : ∀ n, a.version.count n = b.version.count n) (registers : a.registers = b.registers) :
    a.sameState same b = true := by
  refine sameState_of_eq alike registers fun k r v found value => ?_
  obtain ⟨w, ⟨member, -⟩, shown, -⟩ := shows k r found
  exact equal w member v (shown.value ▸ value)

namespace Fleet

/-- Every state that a node has been in shows the greatest writes that it has seen. -/
structure Showing (s : Fleet) : Prop where
  ranked : Ranked s.log
  shows : ∀ n ∈ s.past, n.threats.Shows s.log

section Showing

variable {s t : Fleet} {n next : Node}

theorem showing_start (ids : List NodeId) : (start ids).Showing := by
  constructor
  · exact fun d member => absurd member List.not_mem_nil
  · intro n has
    rw [eq_empty_of_start has]
    exact RegisterMap.shows_empty _ _

theorem Showing.become (h : s.Showing) (shows : next.threats.Shows s.log) :
    (s.become next).Showing := by
  refine ⟨h.ranked, ?_⟩
  rintro m (rfl | old)
  · exact shows
  · exact h.shows m old

/-- A local write to the threats is shown, and hides nothing that others show. -/
theorem Showing.record (h : s.Showing) (inv : Invariant s) (has : s.Has n)
    (bounded : Unsaturated s.log) {key : String} {value : Option Document} {now : Millis}
    {m : ThreatMap} {r : Register (Option Document)}
    (put : n.threats.put? key value now = some m) (wrote : m.register? key = some r) :
    (s.record { n with threats := m } ⟨key, r⟩).Showing := by
  have present := inv.present n has
  have tracks := (inv.past n present).2.1
  have own := inv.countsOwn has
  have mine := h.shows n present
  have logs := RegisterMap.logs_of_put (w := ⟨key, r⟩) put rfl wrote
  constructor
  · exact RegisterMap.ranked_cons h.ranked mine inv.coherent tracks own bounded put rfl wrote
  · rintro o (rfl | old)
    · exact mine.put tracks own bounded put rfl wrote
    · exact (h.shows o old).cons (logs.fresh own (inv.past o old).2.1.closed)

theorem Showing.write (h : s.Showing) (inv : Invariant s) (bounded : Unsaturated s.log)
    (step : Local s t) : t.Showing := by
  cases step with
  | put key d now has put wrote =>
      obtain ⟨m, stored, rfl⟩ := Option.map_eq_some_iff.mp put
      exact h.record inv has bounded stored wrote
  | delete key now has put wrote =>
      obtain ⟨m, stored, rfl⟩ := Option.map_eq_some_iff.mp put
      exact h.record inv has bounded stored wrote
  | @addRule n rule tag has => exact h.become (h.shows n (inv.present n has))
  | @removeRule n rule has => exact h.become (h.shows n (inv.present n has))
  | @addMetric n amount has => exact h.become (h.shows n (inv.present n has))
  | @subtractMetric n amount has => exact h.become (h.shows n (inv.present n has))

theorem Showing.gossip (h : s.Showing) (inv : Invariant s) (faithful : s.Faithful)
    (step : Traffic s t) : t.Showing := by
  refine ⟨step.log_eq ▸ h.ranked, ?_⟩
  rw [step.log_eq]
  rcases step.change inv faithful with ⟨-, past⟩ | ⟨n, next, has, ⟨-, moves⟩, -, past⟩
  · rw [past]
    exact h.shows
  · have present := inv.present n has
    rw [past]
    rintro m (rfl | old)
    · rcases moves with same | ⟨o, earlier, absorbs⟩
      · have threats : m.threats = n.threats := congrArg Snapshot.threats same
        rw [threats]
        exact h.shows n present
      · exact absorbs.shows inv.coherent h.ranked (inv.past n present).2.1 (inv.past o earlier).2.1
          (h.shows n present) (h.shows o earlier)
    · exact h.shows m old

theorem Local.log_subset (step : Local s t) : ∀ w ∈ s.log, w ∈ t.log := by
  intro w member
  cases step with
  | put | delete => exact List.mem_cons_of_mem _ member
  | addRule | removeRule | addMetric | subtractMetric => exact member

theorem Local.sent_eq (step : Local s t) : t.sent = s.sent := by
  cases step <;> rfl

theorem Reachable.showing {ids : List NodeId} (run : Reachable ids s) (bounded : Unsaturated s.log)
    (faithful : s.Faithful) : s.Showing := by
  induction run with
  | start => exact showing_start ids
  | write run step ih =>
      have before := bounded.mono step.log_subset
      exact (ih before (faithful.mono step.sent_eq.ge)).write run.invariant before step
  | gossip run step ih =>
      have before := faithful.mono step.sent_subset
      exact (ih (step.log_eq ▸ bounded) before).gossip run.invariant before step

end Showing

section Agreement

variable {s : Fleet} {a b : Node}

/-- Nodes that know and hold no less than each other hold the same. -/
theorem Showing.agree (h : s.Showing) (inv : Invariant s) (ha : s.Has a) (hb : s.Has b)
    (equal : ∀ w ∈ s.log, ∀ d, w.register.value = some d → d.alike d = true)
    (le : a.snapshot ≤ b.snapshot) (ge : b.snapshot ≤ a.snapshot) :
    a.threats.sameState Document.alike b.threats = true ∧ a.rules = b.rules ∧
      a.metrics.sameState b.metrics = true ∧ a.rules.toList = b.rules.toList ∧
      a.metrics.value = b.metrics.value ∧ a.digest.root = b.digest.root := by
  have mine := inv.present a ha
  have theirs := inv.present b hb
  have alike : ∀ id, a.version.count id = b.version.count id := fun id =>
    Nat.le_antisymm (le.1 id) (ge.1 id)
  have registers := RegisterMap.registers_eq (inv.past a mine).2.1 (inv.past b theirs).2.1
    (h.shows a mine) (h.shows b theirs) alike
  have rules : a.rules = b.rules := le_antisymm le.2.1 ge.2.1
  have metrics := Counter.same_of_le le.2.2 ge.2.2
  refine ⟨?_, rules, metrics.1, rules ▸ rfl, metrics.2, ?_⟩
  · exact (h.shows a mine).sameState equal alike registers
  · rw [Node.digest, Node.digest, registers]

end Agreement

/-- In a quiet time that links every node to every other one, the fleet converges: all nodes end up
with the same threats, rules and metrics, and with one digest of the threats. A document equals
itself unless it holds a double that is not a number, which no JSON text spells. -/
theorem converges {ids : List NodeId} {s t : Fleet} {events : List Event} (run : Reachable ids s)
    (quiet : Quiet s events t) (bounded : Unsaturated s.log) (faithful : t.Faithful)
    (equal : ∀ w ∈ s.log, ∀ d, w.register.value = some d → d.alike d = true)
    (linked : ∀ a b, s.Has a → s.Has b → a.id ≠ b.id →
      ∃ hops, Chain a.id hops b.id ∧ hops.Sublist events) :
    ∀ a b, t.Has a → t.Has b →
      a.threats.sameState Document.alike b.threats = true ∧ a.rules = b.rules ∧
        a.metrics.sameState b.metrics = true ∧ a.rules.toList = b.rules.toList ∧
        a.metrics.value = b.metrics.value ∧ a.digest.root = b.digest.root := by
  have inv := run.invariant
  have continues := inv.continues quiet.steps faithful
  have final : t.Showing := (run.steps quiet.steps).showing (continues.log ▸ bounded) faithful
  have below : ∀ a b, t.Has a → t.Has b → a.snapshot ≤ b.snapshot := by
    intro a b ha hb
    -- Whatever any node held at the start has reached `b`, and so has all that it led to.
    refine continues.below b.snapshot (fun m old => ?_) a (continues.invariant.present a ha)
    obtain ⟨-, -, now, here, -, held⟩ := inv.past m old
    obtain ⟨first, there, name⟩ := continues.names b hb
    have reached : ∃ c, t.Has c ∧ c.id = b.id ∧ now.snapshot ≤ c.snapshot := by
      by_cases same : now.id = first.id
      · obtain ⟨c, present, kept, grown⟩ := continues.grown (inv.present now here)
        exact ⟨c, present, kept.trans (same.trans name), grown⟩
      · obtain ⟨hops, chain, sub⟩ := linked now first here there same
        obtain ⟨c, present, last, carried⟩ :=
          quiet.carried inv faithful chain sub (inv.present now here) rfl
        exact ⟨c, present, last.trans name, carried⟩
    obtain ⟨c, present, last, carried⟩ := reached
    obtain rfl := present.unique hb last
    exact le_trans held carried
  intro a b ha hb
  exact final.agree continues.invariant ha hb (continues.log ▸ equal) (below a b ha hb)
    (below b a hb ha)

section Exchanged

theorem Faithful.post_delta {s : Fleet} {n : Node} {peer : NodeId} {m : Message} {now : Millis}
    (h : s.Faithful) (built : n.deltaMessage peer now = .ok m)
    (read : Message.format.decode (Message.format.encode m) = .ok m) :
    (s.post ⟨m, n⟩).Faithful := by
  obtain ⟨since, -, rfl⟩ := deltaMessage_spec built
  constructor
  · rintro l (rfl | old)
    · exact read
    · exact h.messages l old
  · rintro l (rfl | old) text holds
    · rcases holds with full | response
      · cases full
      · cases response
    · exact h.states l old text holds

theorem Faithful.answer {s : Fleet} {n origin : Node} {ack : Acknowledgment} (h : s.Faithful)
    (silent : ack.reply = none) : (s.answer n ack origin).Faithful := by
  refine h.mono ?_
  rintro l (old | ⟨reply, -⟩)
  · exact old
  · rw [silent] at reply
    contradiction

theorem faithful_written : written.Faithful :=
  ⟨fun _ member => member.elim, fun _ member => member.elim⟩

theorem mem_log_written {w : Write Document} (member : w ∈ written.log) :
    w.register.timestamp ≠ maxCount ∧
      ∀ d, w.register.value = some d → d.alike d = true := by
  obtain rfl := List.mem_singleton.mp member
  refine ⟨by decide, fun d value => ?_⟩
  obtain rfl := Option.some.inj value
  rfl

theorem names_written {n : Node} (has : written.Has n) : n.id = "a" ∨ n.id = "b" := by
  have listed := SortedMap.get?_eq_some_iff.mp has
  change (n.id, n) ∈ [("a", _), ("b", _)] at listed
  rcases List.mem_cons.mp listed with first | second
  · exact .inl (congrArg Prod.fst first)
  · exact .inr (congrArg Prod.fst (List.mem_singleton.mp second))

/-- A write reaches a peer as a delta, and the peer's delta comes back. -/
theorem write_converges : ∃ s t events, Reachable ["a", "b"] s ∧ Quiet s events t ∧
    Unsaturated s.log ∧ t.Faithful ∧ ∃ a b, t.Has a ∧ t.Has b ∧ a.id ≠ b.id ∧
      a.threats.sameState Document.alike b.threats = true ∧ a.digest.root = b.digest.root := by
  have here : written.Has writer := has_become
  have there : written.Has (paired "b" "a") := has_become.become (by decide)
  have sent := (Quiet.start (s := written)).event <|
    .sent 0 here (show Node.deltaMessage _ "b" 0 = .ok _ from rfl)
  have taken := sent.event <| .taken 0 (n := paired "b" "a") there (Set.mem_insert _ _) rfl
  have returned := taken.event <|
    .sent 0 has_become (show Node.deltaMessage _ "a" 0 = .ok _ from rfl)
  have quiet := returned.event <|
    .taken 0 (n := writer) (here.become (by decide)) (Set.mem_insert _ _) rfl
  have bounded : Unsaturated written.log := fun w member => (mem_log_written member).1
  refine
    have faithful := ?_
    have agreed := converges reachable_written quiet bounded faithful
      (fun w member => (mem_log_written member).2) ?_ _ _ has_become
      (has_become.become (by decide))
    ⟨_, _, _, reachable_written, quiet, bounded, faithful, _, _, has_become,
      has_become.become (by decide), by decide, agreed.1, agreed.2.2.2.2.2⟩
  · refine Faithful.answer ?_ ?_
    · refine Faithful.post_delta ?_ (show Node.deltaMessage _ "a" 0 = .ok _ from rfl) ?_
      · refine Faithful.answer ?_ ?_
        · refine faithful_written.post_delta (show Node.deltaMessage _ "b" 0 = .ok _ from rfl) ?_
          exact (Format.decode_encode Message.writesPlain_format _ _).mpr rfl
        · rfl
      · exact (Format.decode_encode Message.writesPlain_format _ _).mpr rfl
    · rfl
  · intro a b ha hb ne
    rcases names_written ha with first | first <;> rcases names_written hb with last | last
    · exact absurd (first.trans last.symm) ne
    · rw [first, last]
      exact ⟨[_, _], .exchange rfl (.here "b"),
        .cons_cons _ (.cons_cons _ (.cons _ (.cons _ .slnil)))⟩
    · rw [first, last]
      exact ⟨[_, _], .exchange rfl (.here "a"),
        .cons _ (.cons _ (.cons_cons _ (.cons_cons _ .slnil)))⟩
    · exact absurd (first.trans last.symm) ne

end Exchanged

end Fleet

end ThreatGossip

import ThreatGossip.Proofs.Convergence
import ThreatGossip.Proofs.Replays
/-!
A delta does what the whole state would do. Its receiver ends up with the very same threats, rules
and metrics, because it has taken in already whatever the delta leaves out.
-/
namespace ThreatGossip

open Json (Document Format)

namespace RegisterMap

variable {α : Type} {log : List (Write α)} {m o : RegisterMap α} {since : Clock}

theorem Shows.merge (coherent : Coherent log) (ranked : Ranked log) (hm : m.Tracks log)
    (ho : o.Tracks log) (sm : m.Shows log) (so : o.Shows log) : (m.merge o).Shows log :=
  sm.union coherent ranked hm ho so ((SameClocks.refl o).carries m.version)
    (fun _ _ found => found) (fun _ => rfl) (count_version_merge (.refl o) ho coherent)

/-- A delta against a clock that its receiver knows has the effect of a merge. -/
theorem apply_delta_eq_merge (coherent : Coherent log) (ranked : Ranked log) (hm : m.Tracks log)
    (ho : o.Tracks log) (sm : m.Shows log) (so : o.Shows log) (known : since ≤ m.version)
    (now : Millis) : m.apply (o.delta since now) = m.merge o := by
  have carries := (carries_delta o since now).mono known
  have counts := carries.count_version ho coherent
  have alike : ∀ n, (m.apply (o.delta since now)).version.count n = (m.merge o).version.count n :=
    fun n => (counts n).trans (count_version_merge (.refl o) ho coherent n).symm
  have applied : (m.apply (o.delta since now)).Tracks log := hm.absorb ho coherent carries
  have merged : (m.merge o).Tracks log := hm.merge (.refl o) ho coherent
  have shows : (m.apply (o.delta since now)).Shows log :=
    sm.union coherent ranked hm ho so carries (fun _ _ => delta_changes_some) (fun _ => rfl) counts
  have versions := applied.positive.eq_of_count merged.positive alike
  have registers := registers_eq applied merged shows (.merge coherent ranked hm ho sm so) alike
  have owners : (m.apply (o.delta since now)).owner = (m.merge o).owner := rfl
  exact congr (congr (congrArg mk owners) versions) registers

end RegisterMap

namespace Fleet

section Rosters

variable {s t : Fleet} {n next : Node}

/-- Every node has a roster of its own, in which it is not a peer. -/
def OwnRosters (s : Fleet) : Prop := ∀ n, s.Has n → n.peers.Of n.id

theorem OwnRosters.become (h : s.OwnRosters) (has : s.Has n)
    (own : n.peers.Of n.id → next.peers.Of next.id) : (s.become next).OwnRosters := by
  intro m there
  rcases has_become_iff.mp there with rfl | ⟨-, there⟩
  · exact own (h n has)
  · exact h m there

theorem OwnRosters.write (h : s.OwnRosters) (step : Local s t) : t.OwnRosters := by
  cases step with
  | put key d now has put wrote =>
      obtain ⟨m, -, rfl⟩ := Option.map_eq_some_iff.mp put
      exact h.become has fun own => own
  | delete key now has put wrote =>
      obtain ⟨m, -, rfl⟩ := Option.map_eq_some_iff.mp put
      exact h.become has fun own => own
  | addRule rule tag has => exact h.become has fun own => own
  | removeRule rule has => exact h.become has fun own => own
  | addMetric amount has => exact h.become has fun own => own
  | subtractMetric amount has => exact h.become has fun own => own

theorem of_handle {m : Message} {now : Millis} {ack : Acknowledgment}
    (handled : n.handle m now = .ok (next, ack)) (own : n.peers.Of n.id) :
    next.peers.Of next.id := by
  rw [Node.id_of_handle handled]
  refine Node.keeps_of_handle handled (P := (·.Of n.id)) ?_ ?_ own
  · exact fun r own => own.adjust _ _
  · exact fun r own => own.adjust _ _

theorem OwnRosters.gossip (h : s.OwnRosters) (step : Traffic s t) : t.OwnRosters := by
  cases step with
  | addPeer i now has added =>
      obtain ⟨peers, registered, rfl⟩ := Node.addPeer_spec added
      exact h.become has fun own => own.register registered
  | removePeer id has => exact h.become has fun own => own.filter _
  | refresh now has => exact h.become has fun own => own.refreshAll now
  | evict maxAge now has => exact h.become has fun own => own.filter _
  | fail peer now has => exact h.become has fun own => own.adjust _ _
  | delta | full | request => exact h
  | deliver now has member handled => exact h.become has (of_handle handled)
  | respond now has member request handled earlier same =>
      exact h.become has (of_handle handled)
  | book now has given => exact h.become has fun own => own.adjust _ _

theorem Reachable.ownRosters {ids : List NodeId} (run : Reachable ids s) : s.OwnRosters := by
  induction run with
  | start =>
      intro n has
      rw [eq_empty_of_start has]
      exact Roster.of_empty _
  | write _ step ih => exact ih.write step
  | gossip _ step ih => exact ih.gossip step

end Rosters

section Deliveries

variable {s : Fleet} {a b : Node}

/-- The payload brings no state, or one that can be read. -/
def Readable (p : Payload) : Prop := ∀ text, p = .full text ∨ p = .response text →
  ∃ t, Snapshot.format.decode text = .ok t

/-- A registered node handles a message that it is sent, if it can read the state in it. -/
theorem Invariant.handles (inv : Invariant s) (own : s.OwnRosters) (hb : s.Has b)
    (known : b.peers.contains a.id = true) {p : Payload} (readable : Readable p)
    (built now : Millis) :
    ∃ next ack, b.handle (a.messageTo b.id p built) now = .ok (next, ack) := by
  have named : a.id ≠ "" := by
    intro nameless
    obtain ⟨peer, found⟩ := Roster.contains_iff.mp known
    rw [nameless, (inv.rosters b hb).named] at found
    contradiction
  have foreign := (own b hb).ne_of_contains known
  have accepts : b.Accepts (a.messageTo b.id p built) :=
    ⟨named, foreign, known, .inr rfl, readable⟩
  exact Node.handle_eq_ok_iff.mpr (Node.accepts_iff.mp accepts)

/-- A node has a delta for every peer, and a peer that knows the node takes it in. The delta leaves
out nothing that the peer does not know. -/
theorem Invariant.delivers_delta (inv : Invariant s) (own : s.OwnRosters) (ha : s.Has a)
    (hb : s.Has b) (knows : a.peers.contains b.id = true) (known : b.peers.contains a.id = true)
    (built now : Millis) : ∃ since m next ack, since ≤ b.version ∧
      a.deltaMessage b.id built = .ok m ∧ b.handle m now = .ok (next, ack) ∧
      next.snapshot = ⟨b.threats.apply (a.threats.delta since built), b.rules.merge a.rules,
        b.metrics.merge a.metrics⟩ := by
  obtain ⟨peer, found⟩ := Roster.contains_iff.mp knows
  have claimed : a.peers.version? b.id = some peer.version := by
    rw [Roster.version?, found]
    rfl
  have reached := inv.estimate_le ha hb claimed
  have message := Node.deltaMessage_of_version claimed built
  have readable : Readable (.delta (a.threats.delta peer.version built) (some a.rules)
      (some a.metrics)) := by
    rintro text (holds | holds) <;> cases holds
  obtain ⟨next, ack, handled⟩ := inv.handles (a := a) own hb known readable built now
  refine ⟨_, _, next, ack, reached, message, handled, ?_⟩
  obtain ⟨rfl, -⟩ := Node.delta_of_handle rfl handled
  rfl

/-- A peer that knows a node takes in its full state. -/
theorem Invariant.delivers_full (inv : Invariant s) (own : s.OwnRosters) (hb : s.Has b)
    (known : b.peers.contains a.id = true)
    (decoded : Snapshot.format.decode a.fullState = .ok a.snapshot) (built now : Millis) :
    ∃ next ack, b.handle (a.fullMessage b.id built) now = .ok (next, ack) ∧
      next.snapshot = b.snapshot.merge a.snapshot := by
  have readable : Readable (.full a.fullState) := by
    rintro text (holds | holds) <;> cases holds
    exact ⟨_, decoded⟩
  obtain ⟨next, ack, handled⟩ := inv.handles (a := a) own hb known readable built now
  refine ⟨next, ack, handled, ?_⟩
  obtain ⟨s, read, rfl, -⟩ := Node.state_of_handle (.inl rfl) handled
  obtain rfl := Except.ok.inj (decoded.symm.trans read)
  rfl

end Deliveries

/-- In every fleet that new nodes can come to be, a delta against a clock that its receiver knows
has the effect of a merge. Of two nodes that know each other, either may send the other its delta or
its full state: the receiver takes in both, and is left with the same threats, rules and metrics. -/
theorem delta_does_what_full_does {ids : List NodeId} {s : Fleet} (run : Reachable ids s)
    (bounded : Unsaturated s.log) (faithful : s.Faithful) :
    (∀ a ∈ s.past, ∀ b ∈ s.past, ∀ since now, b.version.descends since = true →
      b.threats.apply (a.threats.delta since now) = b.threats.merge a.threats) ∧
    ∀ a b, s.Has a → s.Has b → a.peers.contains b.id = true → b.peers.contains a.id = true →
      Snapshot.format.decode a.fullState = .ok a.snapshot → ∀ built built' now now',
        ∃ m next ack next' ack', a.deltaMessage b.id built = .ok m ∧
          b.handle m now = .ok (next, ack) ∧
          b.handle (a.fullMessage b.id built') now' = .ok (next', ack') ∧
          next.threats = next'.threats ∧ next.rules = next'.rules ∧ next.metrics = next'.metrics ∧
          ((∀ w ∈ s.log, ∀ d, w.register.value = some d → d.alike d = true) →
            next.threats.sameState Document.alike next'.threats = true) := by
  have inv := run.invariant
  have own := run.ownRosters
  have showing := run.showing bounded faithful
  have merges : ∀ a ∈ s.past, ∀ b ∈ s.past, ∀ since now, since ≤ b.version →
      b.threats.apply (a.threats.delta since now) = b.threats.merge a.threats := by
    intro a ha b hb since now known
    exact RegisterMap.apply_delta_eq_merge inv.coherent showing.ranked (inv.past b hb).2.1
      (inv.past a ha).2.1 (showing.shows b hb) (showing.shows a ha) known now
  simp only [Clock.descends_iff]
  refine ⟨merges, ?_⟩
  intro a b ha hb knows known decoded built built' now now'
  have pa := inv.present a ha
  have pb := inv.present b hb
  obtain ⟨since, m, next, ack, reached, message, handled, applied⟩ :=
    inv.delivers_delta own ha hb knows known built now
  obtain ⟨next', ack', handled', merged⟩ := inv.delivers_full own hb known decoded built' now'
  rw [merges a pa b pb since built reached] at applied
  have same : next.snapshot = next'.snapshot := applied.trans merged.symm
  have threats : next.threats = next'.threats := congrArg Snapshot.threats same
  refine ⟨m, next, ack, next', ack', message, handled, handled', threats,
    congrArg Snapshot.rules same, congrArg Snapshot.metrics same, fun equal => ?_⟩
  have shows : next.threats.Shows s.log := by
    rw [show next.threats = b.threats.merge a.threats from congrArg Snapshot.threats applied]
    exact .merge inv.coherent showing.ranked (inv.past b pb).2.1 (inv.past a pa).2.1
      (showing.shows b pb) (showing.shows a pa)
  exact shows.sameState equal (fun _ => by rw [threats]) (by rw [threats])

/-- The first write of a node reaches its peer either way. -/
theorem written_either_way : ∃ s a b m next ack next' ack', Reachable ["a", "b"] s ∧ s.Has a ∧
    s.Has b ∧ a.deltaMessage b.id 0 = .ok m ∧ b.handle m 1 = .ok (next, ack) ∧
    b.handle (a.fullMessage b.id 2) 3 = .ok (next', ack') ∧ next.threats = next'.threats ∧
    next.threats.sameState Document.alike next'.threats = true := by
  have here : written.Has writer := has_become
  have there : written.Has (paired "b" "a") := has_become.become (by decide)
  have bounded : Unsaturated written.log := fun w member => (mem_log_written member).1
  have decoded : Snapshot.format.decode writer.fullState = .ok writer.snapshot :=
    (Format.decode_encode Snapshot.writesPlain_format _ _).mpr rfl
  obtain ⟨m, next, ack, next', ack', message, handled, handled', threats, -, -, alike⟩ :=
    (delta_does_what_full_does reachable_written bounded faithful_written).2 writer
      (paired "b" "a") here there rfl rfl decoded 0 2 1 3
  exact ⟨written, writer, _, m, next, ack, next', ack', reachable_written, here, there, message,
    handled, handled', threats, alike fun w member => (mem_log_written member).2⟩

end Fleet

end ThreatGossip

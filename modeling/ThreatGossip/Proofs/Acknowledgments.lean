import ThreatGossip.Proofs.Completeness
import ThreatGossip.Proofs.Replays
/-!
What an acknowledgment spares the next delta. A register that a delta carries is known to the
version that its reader acknowledges, and one that it leaves out to the estimate that it was made
against; both meet in the estimate that the sender then keeps. In a fleet nobody counts more writes
of a node than the node has made, so no estimate hides a later one.
-/
namespace ThreatGossip

open Json (Document)

namespace RegisterMap

variable {α : Type} {m m' : RegisterMap α} {since : Clock}

/-- A local write is lacking wherever its author's earlier writes are all that is counted. -/
theorem lacks_put_iff {key : String} {value : Option α} {wall : Millis}
    (own : since.count m.owner ≤ m.version.count m.owner)
    (put : m.put? key value wall = some m') (k : String) :
    m'.Lacks since k ↔ k = key ∨ m.Lacks since k := by
  obtain ⟨tick, -, registers⟩ := put?_spec put
  have ahead : ¬m'.version ≤ since := by
    intro known
    have counted := known m.owner
    rw [Clock.count_tick tick, if_pos rfl] at counted
    omega
  unfold Lacks
  rw [registers]
  by_cases here : k = key
  · rw [if_pos here]
    exact iff_of_true ⟨_, rfl, ahead⟩ (.inl here)
  · rw [if_neg here, or_iff_right here]

end RegisterMap

namespace Occurrence

/-- The key that it writes. -/
def key? : Occurrence → Option String
  | put key .. | delete key .. => some key
  | _ => none

/-- A write of the node's own, to the threats, the rules or the metrics. -/
def IsLocal : Occurrence → Prop
  | put .. | delete .. | addRule .. | removeRule .. | addMetric .. | subtractMetric .. => True
  | _ => False

end Occurrence

namespace Node

variable {a a' b b' : Node} {since : Clock}

/-- All that a local write does to the threats and the peers. -/
theorem after_local {o : Occurrence} (own : o.IsLocal) (after : a.after? o = some a') :
    a'.peers = a.peers ∧
      ((∃ key value now, o.key? = some key ∧ a.threats.put? key value now = some a'.threats) ∨
        o.key? = none ∧ a'.threats = a.threats) := by
  cases o with
  | put key d now =>
      obtain ⟨m, put, rfl⟩ := Option.map_eq_some_iff.mp after
      exact ⟨rfl, .inl ⟨key, _, now, rfl, put⟩⟩
  | delete key now =>
      obtain ⟨m, put, rfl⟩ := Option.map_eq_some_iff.mp after
      exact ⟨rfl, .inl ⟨key, none, now, rfl, put⟩⟩
  | addRule | removeRule | addMetric | subtractMetric =>
      obtain rfl := Option.some.inj after
      exact ⟨rfl, .inr ⟨rfl, rfl⟩⟩
  | mergeSnapshot | receive | addPeer | refreshPeers | recordSuccess | recordFailure | removePeer
  | evictPeers => exact own.elim

/-- Local writes make a reader lack the keys that they write, and no others. -/
theorem lacks_run_iff {os : List Occurrence} (own : ∀ o ∈ os, o.IsLocal)
    (ran : a.run? os = some a')
    (counted : since.count a.threats.owner ≤ a.threats.version.count a.threats.owner) :
    a'.peers = a.peers ∧ ∀ k, a'.threats.Lacks since k ↔
      k ∈ os.filterMap Occurrence.key? ∨ a.threats.Lacks since k := by
  induction os generalizing a with
  | nil =>
      obtain rfl := Option.some.inj ran
      simp
  | cons o rest ih =>
      obtain ⟨first, others⟩ := List.forall_mem_cons.mp own
      obtain ⟨next, after, ran⟩ := Option.bind_eq_some_iff.mp ran
      obtain ⟨peers, ⟨key, value, now, writes, put⟩ | ⟨writes, same⟩⟩ := after_local first after
      · obtain ⟨tick, owner, -⟩ := RegisterMap.put?_spec put
        have grown := Clock.le_tick tick a.threats.owner
        obtain ⟨kept, lacks⟩ := ih others ran (owner ▸ le_trans counted grown)
        refine ⟨kept.trans peers, fun k => ?_⟩
        rw [lacks, RegisterMap.lacks_put_iff counted put, List.filterMap_cons_some writes,
          List.mem_cons, or_left_comm, or_assoc]
      · obtain ⟨kept, lacks⟩ := ih others ran (same ▸ counted)
        refine ⟨kept.trans peers, fun k => ?_⟩
        rw [lacks, same, List.filterMap_cons_none writes]

/-- A node that has taken in a delta knows the registers that were in it. -/
theorem clock_le_of_handle {m : Message} {now : Millis} {ack : Acknowledgment} {d : Delta Document}
    {rules : Option (ObservedSet String)} {metrics : Option Counter}
    (payload : m.payload = .delta d rules metrics) (handled : b.handle m now = .ok (b', ack))
    {k : String} {r : Register (Option Document)} (carried : d.changes.get? k = some r) :
    r.clock ≤ ack.version := by
  rw [version_of_handle handled]
  obtain ⟨rfl, -⟩ := delta_of_handle payload handled
  exact RegisterMap.clock_le_version_absorb carried b.threats

/-- Against the estimate and what is acknowledged, nothing is lacking. -/
theorem lacks_nothing_of_acknowledged {peer : NodeId} {m : Message} {built heard : Millis}
    {ack : Acknowledgment} (sent : a.deltaMessage peer built = .ok m)
    (handled : b.handle m heard = .ok (b', ack)) :
    ∃ since, a.peers.version? peer = some since ∧
      ∀ k, ¬a.threats.Lacks (since.join ack.version) k := by
  obtain ⟨since, claimed, rfl⟩ := Fleet.deltaMessage_spec sent
  refine ⟨since, claimed, ?_⟩
  rintro k ⟨r, found, missing⟩
  have carried := RegisterMap.get?_delta_changes found since built
  split at carried
  next known =>
    exact missing (le_trans (Clock.descends_iff.mp known) (Clock.le_join_left _ _))
  next =>
    exact missing (le_trans (clock_le_of_handle rfl handled carried) (Clock.le_join_right _ _))

end Node

namespace Fleet

variable {s : Fleet} {a b b' : Node}

/-- In a fleet nobody acknowledges more writes of a node than the node has made. -/
theorem Invariant.acknowledged_le (inv : Invariant s) (ha : s.Has a) (hb : s.Has b) {m : Message}
    {built heard : Millis} {ack : Acknowledgment} (sent : a.deltaMessage b.id built = .ok m)
    (handled : b.handle m heard = .ok (b', ack)) :
    ack.version.count a.id ≤ a.version.count a.id := by
  have posted : Invariant (s.post ⟨m, a⟩) := inv.gossip (.delta built ha sent)
  obtain ⟨-, -, tracks, -, -, reached⟩ := posted.taken hb (Set.mem_insert _ _) handled
  rw [reached]
  exact inv.count_le ha tracks.closed

end Fleet

/-- Whatever two nodes hold and take each other to have: when one takes in the other's delta and the
other books the acknowledgment, the next delta has no threats. In every fleet that new nodes can
come to be, the next delta after local writes then has the registers of exactly the keys that were
written. -/
theorem acknowledgments_shrink_deltas (a b b' : Node) (m : Message) (ack : Acknowledgment)
    (built heard booked later : Millis) (sent : a.deltaMessage b.id built = .ok m)
    (handled : b.handle m heard = .ok (b', ack)) :
    (∃ d, (a.recordSuccess b.id ack.version booked).deltaMessage b.id later =
        .ok (a.messageTo b.id (.delta d (some a.rules) (some a.metrics)) later) ∧
      d.changes = .empty) ∧
    ∀ (ids : List NodeId) (s : Fleet), Fleet.Reachable ids s → s.Has a → s.Has b →
      ∀ (os : List Occurrence) (a' : Node), (∀ o ∈ os, o.IsLocal) →
      (a.recordSuccess b.id ack.version booked).run? os = some a' →
      ∃ d, a'.deltaMessage b.id later =
          .ok (a'.messageTo b.id (.delta d (some a'.rules) (some a'.metrics)) later) ∧
        ∀ k, k ∈ d.changes.keys ↔ k ∈ os.filterMap Occurrence.key? := by
  obtain ⟨since, claimed, known⟩ := Node.lacks_nothing_of_acknowledged sent handled
  have learnt : (a.recordSuccess b.id ack.version booked).peers.version? b.id =
      some (since.join ack.version) := by
    rw [Node.version?_recordSuccess, claimed]
    rfl
  constructor
  · exact ⟨_, Node.deltaMessage_of_version learnt later,
      RegisterMap.delta_changes_eq_empty known later⟩
  · intro ids s run ha hb os a' own ran
    have inv := run.invariant
    have counted : (since.join ack.version).count a.id ≤ a.version.count a.id := by
      rw [Clock.count_join]
      apply Nat.max_le.mpr
      constructor
      · exact le_trans (inv.estimate_le ha hb claimed a.id) (inv.known_count_le ha hb)
      · exact inv.acknowledged_le ha hb sent handled
    rw [← (inv.past a (inv.present a ha)).1] at counted
    obtain ⟨peers, lacks⟩ := Node.lacks_run_iff own ran counted
    refine ⟨_, Node.deltaMessage_of_version (peers ▸ learnt) later, fun k => ?_⟩
    rw [RegisterMap.mem_keys_delta_iff, lacks]
    exact or_iff_left (known k)

/-- After an acknowledged write there is nothing to tell, and then a new key and a deletion are all
that the next delta has. -/
theorem written_acknowledged : ∃ m next ack spared a' d,
    Fleet.writer.deltaMessage "b" 0 = .ok m ∧
    (Fleet.paired "b" "a").handle m 1 = .ok (next, ack) ∧
    (Fleet.writer.recordSuccess "b" ack.version 2).deltaMessage "b" 5 = .ok (Fleet.writer.messageTo
      "b" (.delta spared (some Fleet.writer.rules) (some Fleet.writer.metrics)) 5) ∧
    spared.changes = .empty ∧
    (Fleet.writer.recordSuccess "b" ack.version 2).run? [.put "new" (.ofTree (.boolean false)) 3,
      .addRule "rule" "tag", .delete "k" 4] = some a' ∧
    a'.deltaMessage "b" 5 = .ok (a'.messageTo "b" (.delta d (some a'.rules) (some a'.metrics)) 5) ∧
    ∀ k, k ∈ d.changes.keys ↔ k ∈ ["new", "k"] := by
  obtain ⟨⟨spared, told, nothing⟩, after⟩ := acknowledgments_shrink_deltas Fleet.writer
    (Fleet.paired "b" "a") _ _ _ 0 1 2 5 rfl rfl
  obtain ⟨d, sent, keys⟩ := after ["a", "b"] Fleet.written Fleet.reachable_written Fleet.has_become
    (Fleet.has_become.become (by decide)) [.put "new" (.ofTree (.boolean false)) 3,
      .addRule "rule" "tag", .delete "k" 4] _ (by simp [Occurrence.IsLocal]) rfl
  exact ⟨_, _, _, spared, _, d, rfl, rfl, told, nothing, rfl, sent, keys⟩

end ThreatGossip

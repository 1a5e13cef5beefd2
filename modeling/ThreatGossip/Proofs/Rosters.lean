import ThreatGossip.Node
import ThreatGossip.Proofs.Clocks
/-!
What a roster claims about the versions of peers. It stays within what the peers have really reached
as long as it learns only versions that they have reached.
-/
namespace ThreatGossip.Roster

/-- The versions that a roster may claim: none beyond what the peer has reached, and none of a
nameless peer. -/
structure Within (r : Roster) (reached : NodeId → Clock) : Prop where
  bounded : ∀ id v, r.version? id = some v → v ≤ reached id
  named : r.get? "" = none

variable {r : Roster} {reached : NodeId → Clock}

theorem within_empty (owner : NodeId) (reached : NodeId → Clock) : (empty owner).Within reached :=
  ⟨fun _ _ found => (nomatch found), rfl⟩

theorem Within.mono (h : r.Within reached) {more : NodeId → Clock}
    (le : ∀ id, reached id ≤ more id) : r.Within more :=
  ⟨fun id v found => le_trans (h.bounded id v found) (le id), h.named⟩

theorem Within.version_le (h : r.Within reached) {id : NodeId} {p : Peer}
    (found : r.get? id = some p) : p.version ≤ reached id :=
  h.bounded id p.version (by rw [version?, found]; rfl)

theorem Within.ne_of_version (h : r.Within reached) {id : NodeId} {v : Clock}
    (claimed : r.version? id = some v) : id ≠ "" := by
  rintro rfl
  rw [version?, h.named] at claimed
  contradiction

theorem within_of (bounded : ∀ id p, r.get? id = some p → p.version ≤ reached id)
    (named : r.get? "" = none) : r.Within reached := by
  refine ⟨fun id v found => ?_, named⟩
  obtain ⟨p, known, rfl⟩ := Option.map_eq_some_iff.mp found
  exact bounded id p known

theorem get?_adjust (r : Roster) (id : NodeId) (f : Peer → Peer) (q : NodeId) :
    (r.adjust id f).get? q = if q = id then (r.get? id).map f else r.get? q := by
  unfold adjust
  cases known : r.get? id with
  | none =>
      dsimp only
      split
      next same => rw [same, known]; rfl
      next => rfl
  | some p =>
      refine (SortedMap.get?_insert r.peers q id (f p)).trans ?_
      rfl

/-- A roster is its owner and its entries. -/
theorem eq_of_get? {r' : Roster} (owner : r.owner = r'.owner)
    (entries : ∀ id, r.get? id = r'.get? id) : r = r' := by
  obtain ⟨name, peers⟩ := r
  obtain ⟨name', peers'⟩ := r'
  have same : peers = peers' := SortedMap.eq_of_get? entries
  rw [show name = name' from owner, same]

theorem get?_evict (r : Roster) (maxAge : Nat) (now : Millis) (q : NodeId) :
    (r.evict maxAge now).get? q = (r.get? q).filter fun p => !p.isStale maxAge now :=
  SortedMap.get?_filter ..

theorem get?_refreshAll (r : Roster) (now : Millis) (q : NodeId) :
    (r.refreshAll now).get? q = (r.get? q).map (·.refresh now) :=
  SortedMap.get?_mapValues ..

/-- Changing an entry stays within what its version stays within. -/
theorem Within.adjust (h : r.Within reached) {id : NodeId} {f : Peer → Peer}
    (le : ∀ p, p.version ≤ reached id → (f p).version ≤ reached id) :
    (r.adjust id f).Within reached := by
  refine within_of (fun q p found => ?_) ?_
  · rw [get?_adjust] at found
    split at found
    next same =>
      subst same
      obtain ⟨p', known, rfl⟩ := Option.map_eq_some_iff.mp found
      exact le p' (h.version_le known)
    next => exact h.version_le found
  · rw [get?_adjust]
    split
    next same => rw [← same, h.named]; rfl
    next => exact h.named

theorem Within.touch (h : r.Within reached) (id : NodeId) (now : Millis) :
    (r.adjust id (·.touch now)).Within reached :=
  h.adjust fun _ le => le

theorem Within.learn (h : r.Within reached) {id : NodeId} {version : Clock}
    (le : version ≤ reached id) : (r.learn id version).Within reached :=
  h.adjust fun _ known => Clock.join_le known le

theorem Within.recordSuccess (h : r.Within reached) {id : NodeId} {acked : Clock}
    (le : acked ≤ reached id) (now : Millis) : (r.recordSuccess id acked now).1.Within reached :=
  h.adjust fun _ known => Clock.join_le known le

theorem Within.recordFailure (h : r.Within reached) (id : NodeId) (now : Millis) :
    (r.recordFailure id now).1.Within reached :=
  h.adjust fun _ known => known

/-- A peer that is registered is not the node itself and not nameless, and its version stays. -/
theorem register_spec {i : Introduction} {now : Millis} {r' : Roster}
    (registered : r.register i now = .ok r') : i.id ≠ r.owner ∧ i.id ≠ "" ∧
      ∃ p, r' = { r with peers := r.peers.insert i.id p } ∧
        p.version = (r.version? i.id).getD .empty := by
  unfold Roster.register at registered
  split at registered
  next => contradiction
  next foreign =>
  split at registered
  next => contradiction
  next named =>
  split at registered
  next => contradiction
  next =>
  refine ⟨foreign, named, _, (Except.ok.inj registered).symm, ?_⟩
  unfold version?
  cases r.get? i.id <;> rfl

theorem Within.register (h : r.Within reached) {i : Introduction} {now : Millis} {r' : Roster}
    (registered : r.register i now = .ok r') : r'.Within reached := by
  obtain ⟨-, named, p, rfl, version⟩ := register_spec registered
  refine within_of (fun q p' found => ?_) ?_
  · rw [Roster.get?, SortedMap.get?_insert] at found
    split at found
    next same =>
      obtain rfl := Option.some.inj found
      rw [version, same]
      cases claimed : r.version? i.id with
      | none => exact Clock.empty_le _
      | some v => exact h.bounded i.id v claimed
    next => exact h.version_le found
  · rw [Roster.get?, SortedMap.get?_insert, if_neg (Ne.symm named)]
    exact h.named

theorem Within.filter (h : r.Within reached) (keep : NodeId → Peer → Bool) :
    ({ r with peers := r.peers.filter keep } : Roster).Within reached := by
  refine within_of (fun q p found => ?_) ?_
  · rw [Roster.get?, SortedMap.get?_filter] at found
    exact h.version_le (Option.filter_eq_some_iff.mp found).1
  · rw [Roster.get?, SortedMap.get?_filter]
    have named : r.peers.get? "" = none := h.named
    rw [named]
    rfl

theorem Within.remove (h : r.Within reached) (id : NodeId) : (r.remove id).Within reached :=
  h.filter _

theorem Within.evict (h : r.Within reached) (maxAge : Nat) (now : Millis) :
    (r.evict maxAge now).Within reached :=
  h.filter _

theorem Within.refreshAll (h : r.Within reached) (now : Millis) :
    (r.refreshAll now).Within reached := by
  refine within_of (fun q p found => ?_) ?_
  · rw [Roster.get?_refreshAll] at found
    obtain ⟨p', known, rfl⟩ := Option.map_eq_some_iff.mp found
    exact h.version_le (p := p') known
  · rw [Roster.get?_refreshAll, h.named]
    rfl

section Known

variable {q : NodeId}

theorem contains_iff : r.contains q = true ↔ ∃ p, r.get? q = some p := Option.isSome_iff_exists

theorem contains_adjust (id : NodeId) (f : Peer → Peer) :
    (r.adjust id f).contains q = true ↔ r.contains q = true := by
  rw [contains_iff, contains_iff, get?_adjust]
  split
  next same =>
    rw [same]
    cases r.get? id <;> simp
  next => rfl

theorem contains_refreshAll (now : Millis) :
    (r.refreshAll now).contains q = true ↔ r.contains q = true := by
  rw [contains_iff, contains_iff, get?_refreshAll]
  cases r.get? q <;> simp

theorem contains_of_register {i : Introduction} {now : Millis} {r' : Roster}
    (registered : r.register i now = .ok r') (known : r.contains q = true) :
    r'.contains q = true := by
  obtain ⟨-, -, p, rfl, -⟩ := register_spec registered
  obtain ⟨old, found⟩ := contains_iff.mp known
  rw [contains_iff, Roster.get?, SortedMap.get?_insert]
  split
  next => exact ⟨p, rfl⟩
  next => exact ⟨old, found⟩

end Known

/-- The roster is that of the named node, which is not a peer of its own. -/
structure Of (r : Roster) (id : NodeId) : Prop where
  owner : r.owner = id
  foreign : r.get? id = none

section Of

variable {id : NodeId}

theorem of_empty (id : NodeId) : (empty id).Of id := ⟨rfl, rfl⟩

theorem Of.ne_of_contains {q : NodeId} (h : r.Of id) (known : r.contains q = true) : q ≠ id := by
  rintro rfl
  obtain ⟨p, found⟩ := contains_iff.mp known
  rw [h.foreign] at found
  contradiction

theorem Of.adjust (h : r.Of id) (q : NodeId) (f : Peer → Peer) : (r.adjust q f).Of id := by
  constructor
  · unfold Roster.adjust
    cases r.get? q <;> exact h.owner
  · rw [get?_adjust]
    split
    next same => rw [← same, h.foreign]; rfl
    next => exact h.foreign

theorem Of.register (h : r.Of id) {i : Introduction} {now : Millis} {r' : Roster}
    (registered : r.register i now = .ok r') : r'.Of id := by
  obtain ⟨other, -, p, rfl, -⟩ := register_spec registered
  rw [h.owner] at other
  refine ⟨h.owner, ?_⟩
  rw [Roster.get?, SortedMap.get?_insert, if_neg (Ne.symm other)]
  exact h.foreign

theorem Of.filter (h : r.Of id) (keep : NodeId → Peer → Bool) :
    ({ r with peers := r.peers.filter keep } : Roster).Of id := by
  refine ⟨h.owner, ?_⟩
  have foreign : r.peers.get? id = none := h.foreign
  rw [Roster.get?, SortedMap.get?_filter, foreign]
  rfl

theorem Of.refreshAll (h : r.Of id) (now : Millis) : (r.refreshAll now).Of id := by
  refine ⟨h.owner, ?_⟩
  rw [Roster.get?_refreshAll, h.foreign]
  rfl

end Of

end ThreatGossip.Roster

namespace ThreatGossip.Node

theorem addPeer_spec {n next : Node} {i : Introduction} {now : Millis}
    (added : n.addPeer i now = .ok next) :
    ∃ peers, n.peers.register i now = .ok peers ∧ { n with peers } = next := by
  unfold Node.addPeer at added
  cases registered : n.peers.register i now with
  | error e =>
      rw [registered] at added
      nomatch added
  | ok peers =>
      rw [registered] at added
      exact ⟨peers, rfl, Except.ok.inj added⟩

/-- A success adds what was acknowledged to the estimate of the peer. -/
theorem version?_recordSuccess (n : Node) (peer : NodeId) (acked : Clock) (now : Millis) :
    (n.recordSuccess peer acked now).peers.version? peer =
      (n.peers.version? peer).map (·.join acked) := by
  have entry : (n.recordSuccess peer acked now).peers.get? peer =
      (n.peers.get? peer).map (·.succeed acked now) :=
    (Roster.get?_adjust _ _ _ _).trans (if_pos rfl)
  unfold Roster.version?
  rw [entry, Option.map_map, Option.map_map]
  rfl

/-- A node has a delta for every peer whose version it estimates. -/
theorem deltaMessage_of_version {n : Node} {peer : NodeId} {since : Clock}
    (claimed : n.peers.version? peer = some since) (now : Millis) :
    n.deltaMessage peer now = .ok (n.messageTo peer
      (.delta (n.threats.delta since now) (some n.rules) (some n.metrics)) now) := by
  unfold deltaMessage
  rw [claimed]

end ThreatGossip.Node

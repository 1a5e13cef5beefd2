import ThreatGossip.Gossip
import ThreatGossip.Proofs.Operations
/-!
Pruning forgets the peers that are lost, and nobody else. A peer is lost when it has been silent for
longer than the age given and either the trust in it is too low for it to be sent anything, or it is
offline and its last exchange failed. Those that could be selected are all kept, and what is kept
changes in its standing alone.
-/
namespace ThreatGossip

namespace Peer

variable {p : Peer} {age : Nat} {now : Millis}

/-- What it takes for a peer to be forgotten: by its trust, its silence and its failures. -/
structure Lost (p : Peer) (age : Nat) (now : Millis) : Prop where
  silent : age < elapsed p.lastSeen now
  given : p.trust < Trust.quarantinedBelow ∨
    Trust.suspiciousBelow ≤ p.trust ∧ offlineAfter < elapsed p.lastSeen now ∧ 0 < p.failures

theorem standingAt_eq_offline_iff (score : Trust.Score p.trust) (now : Millis) :
    p.standingAt now = .offline ↔
      Trust.suspiciousBelow ≤ p.trust ∧ offlineAfter < elapsed p.lastSeen now := by
  rw [← Double.not_lt score.isNaN_eq_false rfl]
  unfold standingAt
  split
  next low =>
    have below : p.trust < Trust.suspiciousBelow := Double.lt_of_lt_of_le low (by decide)
    simp [below]
  next =>
    split
    next below => simp [below]
    next above =>
      split
      next silent => simp [above, silent]
      next heard => simp [heard]

theorem isStale_iff : p.isStale age now = true ↔ age < elapsed p.lastSeen now ∧
    (p.standing = .quarantined ∨ p.standing = .offline ∧ 0 < p.failures) := by
  unfold isStale
  rw [Bool.and_eq_true, decide_eq_true_iff, and_comm]
  cases p.standing <;> simp

/-- A peer whose standing is up to date is stale when it is lost. -/
theorem isStale_refresh_iff (score : Trust.Score p.trust) :
    (p.refresh now).isStale age now = true ↔ p.Lost age now := by
  rw [isStale_iff]
  change age < elapsed p.lastSeen now ∧ (p.standingAt now = .quarantined ∨
    p.standingAt now = .offline ∧ 0 < p.failures) ↔ _
  rw [standingAt_eq_quarantined_iff, standingAt_eq_offline_iff score, and_assoc]
  exact ⟨fun ⟨silent, given⟩ => ⟨silent, given⟩, fun lost => ⟨lost.silent, lost.given⟩⟩

theorem selectable_of_isStale (stale : p.isStale age now = true) :
    p.standing.selectable = false := by
  obtain ⟨-, quarantined | ⟨offline, -⟩⟩ := isStale_iff.mp stale
  · rw [quarantined]
    rfl
  · rw [offline]
    rfl

end Peer

namespace Roster

variable {r : Roster} {age : Nat} {now : Millis} {id : NodeId}

/-- Nobody is stale once the stale are gone. -/
theorem stale_evict (r : Roster) (age : Nat) (now : Millis) :
    (r.evict age now).stale age now = [] := by
  have none_left : ∀ p ∈ (r.evict age now).list, ¬p.isStale age now = true := by
    intro p listed
    obtain ⟨e, kept, rfl⟩ := List.mem_map.mp listed
    simpa using (List.mem_filter.mp kept).2
  rw [stale, List.filter_eq_nil_iff.mpr none_left, List.map_nil]

theorem evict_evict (r : Roster) (age : Nat) (now : Millis) :
    (r.evict age now).evict age now = r.evict age now := by
  refine eq_of_get? rfl fun id => ?_
  rw [get?_evict, get?_evict, Option.filter_filter]
  simp only [Bool.and_self]

theorem refreshAll_refreshAll (r : Roster) (now : Millis) :
    (r.refreshAll now).refreshAll now = r.refreshAll now := by
  refine eq_of_get? rfl fun id => ?_
  rw [get?_refreshAll, get?_refreshAll, Option.map_map]
  rfl

/-- Who is left once standings are up to date need not be reviewed again at the same time. -/
theorem refreshAll_evict (r : Roster) (age : Nat) (now : Millis) :
    ((r.refreshAll now).evict age now).refreshAll now = (r.refreshAll now).evict age now := by
  refine eq_of_get? rfl fun id => ?_
  rw [get?_refreshAll, get?_evict, get?_refreshAll]
  cases r.get? id with
  | none => rfl
  | some p =>
      rw [Option.map_some, Option.filter_some]
      split <;> rfl

variable {owner : NodeId}

/-- Once standings are up to date, those are stale that are lost. -/
theorem mem_stale_refreshAll_iff (sound : r.Every (Peer.Sound owner)) :
    id ∈ (r.refreshAll now).stale age now ↔ ∃ p, r.get? id = some p ∧ p.Lost age now := by
  have own : r.Every fun id p => p.id = id := fun id p known => (sound id p known).own
  rw [mem_stale_iff (own.refreshAll fun _ _ same => same)]
  constructor
  · rintro ⟨p', known, stale⟩
    rw [get?_refreshAll] at known
    obtain ⟨p, found, rfl⟩ := Option.map_eq_some_iff.mp known
    exact ⟨p, found, (Peer.isStale_refresh_iff (sound id p found).score).mp stale⟩
  · rintro ⟨p, found, lost⟩
    refine ⟨p.refresh now, ?_, (Peer.isStale_refresh_iff (sound id p found).score).mpr lost⟩
    rw [get?_refreshAll, found]
    rfl

/-- Eviction takes those on the list of the stale and leaves the others as they are. -/
theorem get?_evict_of_stale (own : r.Every fun id p => p.id = id) :
    (r.evict age now).get? id = if id ∈ r.stale age now then none else r.get? id := by
  rw [get?_evict]
  cases known : r.get? id with
  | none => simp
  | some p =>
      have stale : id ∈ r.stale age now ↔ p.isStale age now = true := by
        rw [mem_stale_iff own, known]
        simp
      rw [Option.filter_some]
      cases judged : p.isStale age now <;> simp [stale, judged]

end Roster

namespace Node

/-- What has become of a node when its roster was pruned, and who was forgotten. -/
structure Pruned (n : Node) (policy : Policy) (now : Millis) (next : Node)
    (forgotten : List NodeId) : Prop where
  mem_iff : ∀ id, id ∈ forgotten ↔
    ∃ age p, policy.evictionAge = some age ∧ n.peers.get? id = some p ∧ p.Lost age now
  once : forgotten.Nodup
  off : policy.evictionAge = none → forgotten = []
  gone : ∀ id, id ∈ forgotten → next.peers.get? id = none
  kept : ∀ id, id ∉ forgotten →
    next.peers.get? id = (n.peers.get? id).map fun p => { p with standing := p.standingAt now }
  spared : ∀ id p, n.peers.get? id = some p → (p.standingAt now).selectable = true →
    id ∉ forgotten
  elsewhere : next = { n with peers := { n.peers with peers := next.peers.peers } }
  again : next.prune policy now = (next, [])

variable {n : Node} {policy : Policy} {owner : NodeId} {age : Nat}

theorem prune_off (off : policy.evictionAge = none) (n : Node) (now : Millis) :
    n.prune policy now = ({ n with peers := n.peers.refreshAll now }, []) := by
  unfold prune
  rw [off]

theorem prune_on (on : policy.evictionAge = some age) (n : Node) (now : Millis) :
    n.prune policy now = ({ n with peers := (n.peers.refreshAll now).evict age now },
      (n.peers.refreshAll now).stale age now) := by
  unfold prune
  rw [on]

theorem pruned_off (off : policy.evictionAge = none) (n : Node) (now : Millis) :
    n.Pruned policy now { n with peers := n.peers.refreshAll now } [] where
  mem_iff id := by simp [off]
  once := List.nodup_nil
  off _ := rfl
  gone _ member := nomatch member
  kept id _ := Roster.get?_refreshAll ..
  spared _ _ _ _ := List.not_mem_nil
  elsewhere := rfl
  again := by
    rw [prune_off off]
    dsimp only
    rw [Roster.refreshAll_refreshAll]

theorem pruned_on (on : policy.evictionAge = some age) (sound : n.peers.Every (Peer.Sound owner))
    (now : Millis) : n.Pruned policy now
      { n with peers := (n.peers.refreshAll now).evict age now }
      ((n.peers.refreshAll now).stale age now) := by
  have own : (n.peers.refreshAll now).Every fun id p => p.id = id :=
    Roster.Every.refreshAll (fun id p known => (sound id p known).own) fun _ _ same => same
  constructor
  · intro id
    rw [Roster.mem_stale_refreshAll_iff sound]
    simp [on]
  · exact Roster.nodup_ids own (·.isStale age now)
  · intro off
    rw [on] at off
    contradiction
  · intro id stale
    exact (Roster.get?_evict_of_stale own).trans (if_pos stale)
  · intro id fresh
    refine (Roster.get?_evict_of_stale own).trans ((if_neg fresh).trans ?_)
    exact Roster.get?_refreshAll ..
  · intro id p known selectable stale
    obtain ⟨p', known', stale⟩ := (Roster.mem_stale_iff own).mp stale
    rw [Roster.get?_refreshAll, known] at known'
    obtain rfl := Option.some.inj known'
    exact Bool.false_ne_true ((Peer.selectable_of_isStale stale).symm.trans selectable)
  · rfl
  · rw [prune_on on]
    dsimp only
    rw [Roster.refreshAll_evict, Roster.evict_evict, Roster.stale_evict]

/-- Pruning is exact, whatever was done to the roster before and whatever the time. It forgets the
lost and nobody else, leaves the other entries as they are but for the standing that the time gives
them, and done again at once it does nothing. -/
theorem prune_exact {ops : List Operation} (reached : n.peers = (Roster.empty owner).after ops)
    (policy : Policy) (now : Millis) :
    n.Pruned policy now (n.prune policy now).1 (n.prune policy now).2 := by
  cases age : policy.evictionAge with
  | none =>
      rw [prune_off age]
      exact pruned_off age n now
  | some maxAge =>
      rw [prune_on age]
      exact pruned_on age (reached ▸ Roster.sound_after owner ops) now

/-- A node meets a peer that it is told not to trust, one that it cannot reach, one that is only
quiet, and one that it has its doubts about. -/
def crowd : List Operation :=
  [.register ⟨"bad", "b:1", [], some 0.05⟩ 9, .register ⟨"down", "d:1", [], none⟩ 0,
    .fail "down" 1, .register ⟨"quiet", "q:1", [], none⟩ 0,
    .register ⟨"wary", "w:1", [], some 0.2⟩ 0, .fail "wary" 1]

def crowded : Node := { empty "a" with peers := (Roster.empty "a").after crowd }

/-- The first two are forgotten after six minutes, and nobody before anybody was met. -/
theorem crowded_pruned : crowded.peers = (Roster.empty "a").after crowd ∧
    (crowded.prune ⟨1, 3, 1, some 0⟩ 360000).2 = ["bad", "down"] ∧
    crowded.Pruned ⟨1, 3, 1, some 0⟩ 360000 (crowded.prune ⟨1, 3, 1, some 0⟩ 360000).1
      ["bad", "down"] ∧
    crowded.Pruned ⟨1, 3, 1, some 0⟩ 0 (crowded.prune ⟨1, 3, 1, some 0⟩ 0).1 [] := by
  have forgotten : (crowded.prune ⟨1, 3, 1, some 0⟩ 360000).2 = ["bad", "down"] := by
    decide +kernel
  have none_forgotten : (crowded.prune ⟨1, 3, 1, some 0⟩ 0).2 = [] := by decide +kernel
  refine ⟨rfl, forgotten, ?_, ?_⟩
  · rw [← forgotten]
    exact prune_exact rfl _ _
  · rw [← none_forgotten]
    exact prune_exact rfl _ _

end Node

end ThreatGossip

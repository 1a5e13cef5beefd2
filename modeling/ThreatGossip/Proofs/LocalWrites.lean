import Mathlib.Algebra.GroupWithZero.Nat
import ThreatGossip.Proofs.Replays
/-!
When local writes complete. Each takes one number of the node's own clock slot, and so does nobody
else; but a clock that is taken in may claim that the node has written more than it did, and the
slot follows the claim. Writes complete as long as they and the greatest claim stay below the end of
the slot. Once the slot is at its end, no write completes any more.
-/
namespace ThreatGossip

open Json (Document)

namespace Snapshot

/-- No clock in the content claims more than `claim` events of `id`. -/
structure ClaimsAtMost (s : Snapshot) (id : NodeId) (claim : Nat) : Prop where
  version : s.threats.version.count id ≤ claim
  registers : ∀ k r, s.threats.register? k = some r → r.clock.count id ≤ claim

end Snapshot

namespace RegisterMap

variable {α : Type} {m o : RegisterMap α} {id : NodeId}

/-- A merge counts no more events of a node than are counted or claimed. -/
theorem count_version_merge_le {bound : Nat} (mine : m.version.count id ≤ bound)
    (version : o.version.count id ≤ bound)
    (registers : ∀ k r, o.register? k = some r → r.clock.count id ≤ bound) :
    (m.merge o).version.count id ≤ bound := by
  have folded : ∀ (regs : List (Register (Option α))) (c : Clock), c.count id ≤ bound →
      (∀ r ∈ regs, r.clock.count id ≤ bound) →
      (regs.foldl (fun c r => c.join r.clock) c).count id ≤ bound := by
    intro regs
    induction regs with
    | nil => exact fun _ start _ => start
    | cons r rest ih =>
        intro c start each
        obtain ⟨first, others⟩ := List.forall_mem_cons.mp each
        refine ih (c.join r.clock) ?_ others
        rw [Clock.count_join]
        exact Nat.max_le.mpr ⟨start, first⟩
  have absorbed : (m.absorb o.registers).version.count id ≤ bound := by
    refine folded o.registers.values m.version mine fun r member => ?_
    obtain ⟨k, found⟩ := mem_values_iff.mp member
    exact registers k r found
  change ((m.absorb o.registers).version.join o.version).count id ≤ bound
  rw [Clock.count_join]
  exact Nat.max_le.mpr ⟨absorbed, version⟩

end RegisterMap

namespace Clock

/-- A slot can be ticked exactly when it is not at its end. -/
theorem tick?_isSome_iff {c : Clock} {n : NodeId} :
    (∃ d, c.tick? n = some d) ↔ c.count n < maxCount.toNat := by
  have bound := (c.get n).toNat_lt
  have top : maxCount.toNat = 18446744073709551615 := rfl
  have room : (∃ d, c.tick? n = some d) ↔ c.get n ≠ maxCount :=
    ⟨fun ⟨_, tick⟩ => (tick?_eq_some_iff.mp tick).1, exists_tick⟩
  rw [room, Ne, ← UInt64.toNat_inj]
  unfold count
  omega

end Clock

namespace Occurrence

/-- How many numbers of the node's own slot it takes. -/
def writes : Occurrence → Nat
  | put .. | delete .. => 1
  | _ => 0

/-- The content that it merges into the node, if nothing is refused. -/
def brings : Occurrence → Option Snapshot
  | mergeSnapshot s _ => some s
  | receive m _ => m.brings
  | _ => none

end Occurrence

namespace Node

variable {n n' : Node} {id : NodeId}

/-- The slot that the node's own writes are counted in. -/
def ownCount (n : Node) : Nat := n.version.count n.threats.owner

theorem put?_completes_iff (key : String) (value : Option Document) (now : Millis) :
    (∃ m, n.threats.put? key value now = some m) ↔ n.ownCount < maxCount.toNat := by
  refine Iff.trans ⟨?_, ?_⟩ Clock.tick?_isSome_iff
  · rintro ⟨m, put⟩
    exact ⟨m.version, (RegisterMap.put?_spec put).1⟩
  · rintro ⟨d, tick⟩
    obtain ⟨m, put, -⟩ := RegisterMap.exists_put tick key value now
    exact ⟨m, put⟩

/-- A node whose slot is not at its end can store and delete anything, and no other can. -/
theorem write_completes_iff (n : Node) (key : String) (d : Document) (now : Millis) :
    ((∃ n', n.putThreat? key d now = some n') ↔ n.ownCount < maxCount.toNat) ∧
      ((∃ n', n.deleteThreat? key now = some n') ↔ n.ownCount < maxCount.toNat) := by
  have through {value : Option Document} :
      (∃ n', (n.threats.put? key value now).map ({ n with threats := · }) = some n') ↔
        n.ownCount < maxCount.toNat := by
    rw [← put?_completes_iff key value now]
    simp only [Option.map_eq_some_iff]
    exact ⟨fun ⟨_, m, put, _⟩ => ⟨m, put⟩, fun ⟨m, put⟩ => ⟨_, m, put, rfl⟩⟩
  exact ⟨through, through⟩

/-- What an occurrence does to the threats: a write of the node's own, a merge of what it brings, or
nothing. -/
theorem threats_after {o : Occurrence} (after : n.after? o = some n') :
    (o.writes = 1 ∧ ∃ key value now, n.threats.put? key value now = some n'.threats) ∨
      (o.writes = 0 ∧ ((∃ s, o.brings = some s ∧ n'.threats = n.threats.merge s.threats) ∨
        n'.threats = n.threats)) := by
  cases o with
  | put key d now =>
      obtain ⟨m, put, rfl⟩ := Option.map_eq_some_iff.mp after
      exact .inl ⟨rfl, key, _, now, put⟩
  | delete key now =>
      obtain ⟨m, put, rfl⟩ := Option.map_eq_some_iff.mp after
      exact .inl ⟨rfl, key, none, now, put⟩
  | mergeSnapshot s now =>
      obtain rfl := Option.some.inj after
      exact .inr ⟨rfl, .inl ⟨s, rfl, rfl⟩⟩
  | receive m now =>
      obtain rfl := Option.some.inj after
      refine .inr ⟨rfl, ?_⟩
      split
      next handled =>
        have content := congrArg Snapshot.threats (snapshot_of_handle handled).1
        cases brings : m.brings with
        | none =>
            rw [brings] at content
            exact .inr content
        | some s =>
            rw [brings] at content
            exact .inl ⟨s, brings, content⟩
      next => exact .inr rfl
  | addPeer i now =>
      obtain rfl := Option.some.inj after
      refine .inr ⟨rfl, .inr ?_⟩
      split
      next added =>
        obtain ⟨peers, -, rfl⟩ := addPeer_spec added
        rfl
      next => rfl
  | addRule | removeRule | addMetric | subtractMetric | refreshPeers | recordSuccess
  | recordFailure | removePeer | evictPeers =>
      obtain rfl := Option.some.inj after
      exact .inr ⟨rfl, .inr rfl⟩

/-- Nothing but a write needs room in the slot. -/
theorem after?_isSome {o : Occurrence} (room : n.ownCount + o.writes ≤ maxCount.toNat) :
    ∃ n', n.after? o = some n' := by
  cases o with
  | put key d now => exact (n.write_completes_iff key d now).1.mpr room
  | delete key now => exact (n.write_completes_iff key (.ofTree .null) now).2.mpr room
  | addRule | removeRule | addMetric | subtractMetric | mergeSnapshot | receive | addPeer
  | refreshPeers | recordSuccess | recordFailure | removePeer | evictPeers => exact ⟨_, rfl⟩

theorem owner_after {o : Occurrence} (after : n.after? o = some n') :
    n'.threats.owner = n.threats.owner := by
  rcases threats_after after with ⟨-, key, value, now, put⟩ | ⟨-, ⟨s, -, same⟩ | same⟩
  · exact (RegisterMap.put?_spec put).2.1
  · rw [same]
    rfl
  · rw [same]

/-- An occurrence takes the slot no further than its own writes and the claims that it brings. -/
theorem ownCount_after_le {o : Occurrence} (after : n.after? o = some n') {bound : Nat}
    (mine : n.ownCount ≤ bound)
    (claims : ∀ s, o.brings = some s → s.ClaimsAtMost n.threats.owner bound) :
    n'.ownCount ≤ bound + o.writes := by
  have owner := owner_after after
  unfold ownCount version at mine ⊢
  rw [owner]
  rcases threats_after after with ⟨one, key, value, now, put⟩ | ⟨none, ⟨s, brought, same⟩ | same⟩
  · rw [Clock.count_tick (RegisterMap.put?_spec put).1, if_pos rfl, one]
    omega
  · have claimed := claims s brought
    rw [same, none]
    exact RegisterMap.count_version_merge_le mine claimed.version claimed.registers
  · rw [same, none]
    exact mine

/-- The slot never goes back. -/
theorem ownCount_le_after {o : Occurrence} (after : n.after? o = some n') :
    n.ownCount ≤ n'.ownCount := by
  have owner := owner_after after
  unfold ownCount version
  rw [owner]
  rcases threats_after after with ⟨-, key, value, now, put⟩ | ⟨-, ⟨s, -, same⟩ | same⟩
  · exact Clock.le_tick (RegisterMap.put?_spec put).1 _
  · rw [same]
    exact (RegisterMap.version_merge_extends n.threats s.threats).le _
  · rw [same]

section Runs

variable {os : List Occurrence}

/-- The writes of a run, counted. -/
def writesOf (os : List Occurrence) : Nat := (os.map Occurrence.writes).sum

/-- A run whose writes and claims fit into the slot goes through, and the slot keeps to them. -/
theorem run?_completes {bound : Nat} (mine : n.ownCount ≤ bound)
    (claims : ∀ o ∈ os, ∀ s, o.brings = some s → s.ClaimsAtMost n.threats.owner bound)
    (room : bound + writesOf os ≤ maxCount.toNat) :
    ∃ n', n.run? os = some n' ∧ n'.threats.owner = n.threats.owner ∧
      n'.ownCount ≤ bound + writesOf os := by
  induction os generalizing n bound with
  | nil => exact ⟨n, rfl, rfl, mine⟩
  | cons o rest ih =>
      obtain ⟨first, others⟩ := List.forall_mem_cons.mp claims
      have split : writesOf (o :: rest) = o.writes + writesOf rest := rfl
      obtain ⟨next, after⟩ := after?_isSome (n := n) (o := o) (by omega)
      have owner := owner_after after
      have later := ownCount_after_le after mine first
      have wider : ∀ p ∈ rest, ∀ s, p.brings = some s →
          s.ClaimsAtMost next.threats.owner (bound + o.writes) := by
        intro p member s brought
        have claimed := others p member s brought
        rw [owner]
        exact ⟨Nat.le_add_right_of_le claimed.version,
          fun k r found => Nat.le_add_right_of_le (claimed.registers k r found)⟩
      obtain ⟨last, ran, same, reached⟩ := ih later wider (by omega)
      refine ⟨last, ?_, same.trans owner, by omega⟩
      rw [run?, after]
      exact ran

theorem ownCount_le_of_run (ran : n.run? os = some n') : n.ownCount ≤ n'.ownCount :=
  run?_induction (P := fun a => n.ownCount ≤ a.ownCount) ran
    (fun _ _ _ _ after le => le_trans le (ownCount_le_after after)) (le_refl _)

/-- However a new node is operated and whatever it is sent, its local writes all complete, the next
one included, as long as their number and the greatest number of its own writes that any clock in
the content claims stay below the end of a slot. -/
theorem local_writes_complete_below_claims (id : NodeId) (os : List Occurrence) (claim : Nat)
    (claims : ∀ o ∈ os, ∀ s, o.brings = some s → s.ClaimsAtMost id claim)
    (room : writesOf os + claim < maxCount.toNat) :
    ∃ n, (Node.empty id).run? os = some n ∧ n.version.count id ≤ writesOf os + claim ∧
      ∀ key d now, (∃ n', n.putThreat? key d now = some n') ∧
        ∃ n', n.deleteThreat? key now = some n' := by
  obtain ⟨n, ran, owner, reached⟩ := run?_completes (n := Node.empty id)
    (Nat.zero_le claim) claims (by omega)
  have below : n.ownCount < maxCount.toNat := by omega
  refine ⟨n, ran, ?_, fun key d now => ?_⟩
  · have counted : n.ownCount = n.version.count id := congrArg n.version.count owner
    omega
  · exact ⟨(n.write_completes_iff key d now).1.mpr below,
      (n.write_completes_iff key d now).2.mpr below⟩

/-- Once the slot of a node is at its end, no write of it completes again, whatever happens. -/
theorem no_write_completes_again (full : n.ownCount = maxCount.toNat) (ran : n.run? os = some n')
    (key : String) (d : Document) (now : Millis) :
    n'.putThreat? key d now = none ∧ n'.deleteThreat? key now = none := by
  have kept : ¬n'.ownCount < maxCount.toNat := by
    have grown : n.ownCount ≤ n'.ownCount := ownCount_le_of_run ran
    omega
  obtain ⟨puts, deletes⟩ := n'.write_completes_iff key d now
  constructor
  · exact Option.eq_none_iff_forall_ne_some.mpr fun m stored => kept (puts.mp ⟨m, stored⟩)
  · exact Option.eq_none_iff_forall_ne_some.mpr fun m deleted => kept (deletes.mp ⟨m, deleted⟩)

end Runs

section Sample

/-- A delta of one deletion whose clock claims so many writes of its recipient. -/
def boast (claim : UInt64) : Message :=
  ⟨"a", "b", 1, .empty, .delta
    ⟨"a", 1, SortedMap.empty.insert "k" ⟨none, 1, ⟨SortedMap.empty.insert "b" claim⟩, "a"⟩⟩
    none none⟩

theorem claimsAtMost_boast (claim : UInt64) (s : Snapshot)
    (brings : (boast claim).brings = some s) : s.ClaimsAtMost "b" claim.toNat := by
  obtain rfl := Option.some.inj brings
  refine ⟨Nat.zero_le _, fun k r found => ?_⟩
  have found : (SortedMap.empty.insert "k" _ : Registers Document).get? k = some r := found
  rw [SortedMap.get?_insert] at found
  split at found
  · obtain rfl := Option.some.inj found
    rw [Clock.count_slots, SortedMap.get?_insert, if_pos rfl]
    exact Nat.le_refl _
  · contradiction

/-- After a claim of five writes and one that it makes, a node goes on. -/
theorem local_writes_complete_below_boast :
    ∃ n, (Node.empty "b").run? [.addPeer ⟨"a", "a:1", [], none⟩ 0, .receive (boast 5) 1,
        .put "k" (.ofTree (.boolean true)) 2] = some n ∧ n.version.count "b" ≤ 6 ∧
      ∃ n', n.putThreat? "k" (.ofTree (.boolean false)) 3 = some n' := by
  have claims : ∀ o ∈ [.addPeer ⟨"a", "a:1", [], none⟩ 0, .receive (boast 5) 1,
      .put "k" (.ofTree (.boolean true)) 2], ∀ s, Occurrence.brings o = some s →
        s.ClaimsAtMost "b" 5 := by
    intro o member s brought
    rcases List.mem_cons.mp member with rfl | member
    · contradiction
    rcases List.mem_pair.mp member with rfl | rfl
    · exact claimsAtMost_boast 5 s brought
    · contradiction
  obtain ⟨n, ran, reached, writes⟩ := local_writes_complete_below_claims "b" _ 5 claims (by decide)
  exact ⟨n, ran, reached, (writes "k" _ 3).1⟩

/-- After a claim of all that a slot can count, a node that has written nothing never writes. -/
theorem boast_blocks_writes : ∃ os n, writesOf os = 0 ∧ (Node.empty "b").run? os = some n ∧
    ∀ later n', n.run? later = some n' → ∀ key d now,
      n'.putThreat? key d now = none ∧ n'.deleteThreat? key now = none :=
  ⟨[.addPeer ⟨"a", "a:1", [], none⟩ 0, .receive (boast maxCount) 1], _, rfl, rfl,
    fun _ _ ran => no_write_completes_again rfl ran⟩

end Sample

end Node

end ThreatGossip

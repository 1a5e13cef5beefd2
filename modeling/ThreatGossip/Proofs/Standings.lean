import ThreatGossip.Exchange
import ThreatGossip.Proofs.Inbound
import ThreatGossip.Proofs.Rosters
/-!
What a node keeps of its peers. An entry stands under the id of its peer, and says quarantined
exactly when the trust in the peer is that low. Messages that come in change neither the address of
a peer nor the trust in it; the trust moves when the node books an exchange of its own.
-/
namespace ThreatGossip

theorem Standing.selectable_of_ne {s : Standing} (trusted : s ≠ .quarantined)
    (heard : s ≠ .offline) : s.selectable = true := by
  cases s with
  | active | suspicious => rfl
  | quarantined => exact absurd rfl trusted
  | offline => exact absurd rfl heard

namespace Peer

/-- What other nodes do not change about an entry: the address and the trust. -/
def terms (p : Peer) : String × Float := (p.address, p.trust)

/-- The entry stands under the peer's id, and its standing tells whether the trust is too low. -/
structure Filed (id : NodeId) (p : Peer) : Prop where
  own : p.id = id
  settled : p.standing = .quarantined ↔ p.trust < Trust.quarantinedBelow

variable {id : NodeId} {p : Peer}

theorem standingAt_eq_quarantined_iff (p : Peer) (now : Millis) :
    p.standingAt now = .quarantined ↔ p.trust < Trust.quarantinedBelow := by
  unfold standingAt
  split
  next low => exact iff_of_true rfl low
  next high =>
    refine iff_of_false ?_ high
    split
    · exact Standing.noConfusion
    · split <;> exact Standing.noConfusion

theorem filed_refresh (own : p.id = id) (now : Millis) : (p.refresh now).Filed id :=
  ⟨own, p.standingAt_eq_quarantined_iff now⟩

theorem Filed.touch (h : p.Filed id) (now : Millis) : (p.touch now).Filed id :=
  ⟨h.own, standingAt_eq_quarantined_iff _ now⟩

theorem Filed.learn (h : p.Filed id) (version : Clock) : (p.learn version).Filed id :=
  ⟨h.own, h.settled⟩

theorem Filed.succeed (h : p.Filed id) (acked : Clock) (now : Millis) :
    (p.succeed acked now).Filed id :=
  ⟨h.own, standingAt_eq_quarantined_iff _ now⟩

theorem Filed.fail (h : p.Filed id) (now : Millis) : (p.fail now).Filed id :=
  ⟨h.own, standingAt_eq_quarantined_iff _ now⟩

/-- Before five minutes have passed since the epoch nobody has been silent for so long. -/
theorem standingAt_ne_offline {now : Millis} (early : now.toNat ≤ offlineAfter) (p : Peer) :
    p.standingAt now ≠ .offline := by
  have heard : ¬offlineAfter < elapsed p.lastSeen now := by
    unfold elapsed
    omega
  unfold standingAt
  rw [if_neg heard]
  split
  · exact Standing.noConfusion
  · split <;> exact Standing.noConfusion

end Peer

namespace Roster

/-- All entries, with their keys, are of a kind. -/
def Every (r : Roster) (P : NodeId → Peer → Prop) : Prop := ∀ id p, r.get? id = some p → P id p

/-- A part of each entry. -/
def parts {β : Type} (r : Roster) (part : Peer → β) (id : NodeId) : Option β := (r.get? id).map part

section Every

variable {r : Roster} {P : NodeId → Peer → Prop}

theorem every_empty (owner : NodeId) : (empty owner).Every P := fun _ _ found => nomatch found

theorem Every.adjust (h : r.Every P) {id : NodeId} {f : Peer → Peer}
    (keeps : ∀ p, P id p → P id (f p)) : (r.adjust id f).Every P := by
  intro q p found
  rw [get?_adjust] at found
  split at found
  next same =>
    obtain ⟨old, known, rfl⟩ := Option.map_eq_some_iff.mp found
    exact same ▸ keeps old (h id old known)
  next => exact h q p found

theorem Every.filter (h : r.Every P) (keep : NodeId → Peer → Bool) :
    ({ r with peers := r.peers.filter keep } : Roster).Every P := by
  intro id p found
  rw [Roster.get?, SortedMap.get?_filter] at found
  exact h id p (Option.filter_eq_some_iff.mp found).1

theorem Every.refreshAll (h : r.Every P) {now : Millis}
    (keeps : ∀ id p, P id p → P id (p.refresh now)) : (r.refreshAll now).Every P := by
  intro id p found
  rw [Roster.get?_refreshAll] at found
  obtain ⟨old, known, rfl⟩ := Option.map_eq_some_iff.mp found
  exact keeps id old (h id old known)

theorem Every.register (h : r.Every Peer.Filed) {i : Introduction} {now : Millis} {r' : Roster}
    (registered : r.register i now = .ok r') : r'.Every Peer.Filed := by
  unfold Roster.register at registered
  split at registered
  · contradiction
  split at registered
  · contradiction
  split at registered
  · contradiction
  obtain rfl := Except.ok.inj registered
  intro id p found
  rw [Roster.get?, SortedMap.get?_insert] at found
  split at found
  next same =>
    obtain rfl := Option.some.inj found
    cases known : r.get? i.id with
    | none => exact Peer.filed_refresh same.symm now
    | some old =>
        obtain ⟨own, settled⟩ := h i.id old known
        exact ⟨own.trans same.symm, settled⟩
  next => exact h id p found

end Every

section Parts

variable {β : Type} {r : Roster} {part : Peer → β}

theorem parts_adjust {id : NodeId} {f : Peer → Peer} (same : ∀ p, part (f p) = part p) :
    (r.adjust id f).parts part = r.parts part := by
  funext q
  rw [parts, parts, get?_adjust]
  split
  next here =>
    rw [here, Option.map_map]
    exact congrArg (Option.map · _) (funext same)
  next => rfl

theorem parts_refreshAll {now : Millis} (same : ∀ p : Peer, part (p.refresh now) = part p) :
    (r.refreshAll now).parts part = r.parts part := by
  funext q
  rw [parts, parts, Roster.get?_refreshAll, Option.map_map]
  exact congrArg (Option.map · _) (funext same)

theorem get?_of_parts {r' : Roster} (same : r'.parts part = r.parts part) {id : NodeId} {p : Peer}
    (known : r.get? id = some p) : ∃ p', r'.get? id = some p' ∧ part p' = part p := by
  have here := congrFun same id
  rw [parts, parts, known] at here
  exact Option.map_eq_some_iff.mp here

theorem length_list_of_parts (part : Peer → β) {r' : Roster} (same : r'.parts part = r.parts part) :
    r'.list.length = r.list.length := by
  have maps : r'.peers.mapValues (fun _ => part) = r.peers.mapValues fun _ => part :=
    SortedMap.eq_of_get? fun id => by
      rw [SortedMap.get?_mapValues, SortedMap.get?_mapValues]
      exact congrFun same id
  have entries := congrArg (·.entries.length) maps
  simpa [SortedMap.mapValues, list, SortedMap.values] using entries

end Parts

section Lists

variable {r : Roster} {id : NodeId} {p : Peer}

theorem mem_list_of_get? (known : r.get? id = some p) : p ∈ r.list :=
  List.mem_map_of_mem (f := Prod.snd) (SortedMap.get?_eq_some_iff.mp known)

/-- Entries that stand under their own ids are listed as they are found. -/
theorem mem_list_iff (own : r.Every fun id p => p.id = id) :
    p ∈ r.list ↔ r.get? p.id = some p := by
  constructor
  · intro listed
    obtain ⟨⟨key, p⟩, entry, rfl⟩ := List.mem_map.mp listed
    have found : r.get? key = some p := SortedMap.get?_eq_some_iff.mpr entry
    exact (own key p found).symm ▸ found
  · exact mem_list_of_get?

theorem mem_stale_iff (own : r.Every fun id p => p.id = id) {maxAge : Nat} {now : Millis} :
    id ∈ r.stale maxAge now ↔ ∃ p, r.get? id = some p ∧ p.isStale maxAge now = true := by
  simp only [stale, List.mem_map, List.mem_filter, mem_list_iff own]
  constructor
  · rintro ⟨p, ⟨known, stale⟩, rfl⟩
    exact ⟨p, known, stale⟩
  · rintro ⟨p, known, stale⟩
    obtain rfl := own id p known
    exact ⟨p, ⟨known, stale⟩, rfl⟩

end Lists

end Roster

namespace Node

variable {n next : Node} {β : Type} {part : Peer → β}

theorem parts_of_handle (part : Peer → β) {m : Message} {now : Millis} {ack : Acknowledgment}
    (handled : n.handle m now = .ok (next, ack)) (touch : ∀ p, part (p.touch now) = part p)
    (learn : ∀ p : Peer, part (p.learn m.version) = part p) :
    next.peers.parts part = n.peers.parts part := by
  refine keeps_of_handle handled (P := fun r => r.parts part = n.peers.parts part) ?_ ?_ rfl
  · exact fun r same => (Roster.parts_adjust touch).trans same
  · exact fun r same => (Roster.parts_adjust learn).trans same

theorem filed_of_handle {m : Message} {now : Millis} {ack : Acknowledgment}
    (handled : n.handle m now = .ok (next, ack)) (filed : n.peers.Every Peer.Filed) :
    next.peers.Every Peer.Filed := by
  refine keeps_of_handle handled (P := (·.Every Peer.Filed)) ?_ ?_ filed
  · exact fun r filed => filed.adjust fun _ old => old.touch now
  · exact fun r filed => filed.adjust fun _ old => old.learn m.version

/-- A reply that was taken in was there, and was handled as any message is. -/
theorem takeReply_spec {peer : NodeId} {reply : Option Message} {now : Millis}
    (taken : n.takeReply peer reply now = .ok next) :
    ∃ m answer, reply = some m ∧ n.handle m now = .ok (next, answer) := by
  unfold takeReply at taken
  split at taken
  next => nomatch taken
  next m =>
  split at taken
  next => nomatch taken
  next =>
  split at taken
  next next' answer handled =>
    obtain rfl := Except.ok.inj taken
    exact ⟨m, answer, rfl, handled⟩
  next => nomatch taken

/-- What an exchange ends in, for the node that began it: nothing, a failure or a success booked,
and before the success of a pull the reply taken in. -/
theorem conclude_cases (n : Node) (purpose : Purpose) (peer : NodeId) (now : Millis)
    (outcome : Except ExchangeError Acknowledgment) :
    (n.conclude purpose peer now outcome).1 = n ∨
    (n.conclude purpose peer now outcome).1 = n.recordFailure peer now ∨
    (∃ ack, outcome = .ok ack ∧
      (n.conclude purpose peer now outcome).1 = n.recordSuccess peer ack.version now) ∨
    ∃ ack m next answer, outcome = .ok ack ∧ ack.reply = some m ∧
      n.handle m now = .ok (next, answer) ∧
      (n.conclude purpose peer now outcome).1 = next.recordSuccess peer ack.version now := by
  cases outcome with
  | error e =>
      cases e with
      | cancelled => exact .inl rfl
      | transport | timedOut | refused | noReply | wrongReply => exact .inr (.inl rfl)
  | ok ack =>
      cases purpose with
      | push => exact .inr (.inr (.inl ⟨ack, rfl, rfl⟩))
      | pull =>
          simp only [conclude]
          cases taken : n.takeReply peer ack.reply now with
          | error e => exact .inr (.inl rfl)
          | ok next =>
              obtain ⟨m, answer, reply, handled⟩ := takeReply_spec taken
              exact .inr (.inr (.inr ⟨ack, m, next, answer, rfl, reply, handled, rfl⟩))

theorem filed_of_conclude {purpose : Purpose} {peer : NodeId} {now : Millis}
    {outcome : Except ExchangeError Acknowledgment} (filed : n.peers.Every Peer.Filed) :
    (n.conclude purpose peer now outcome).1.peers.Every Peer.Filed := by
  rcases n.conclude_cases purpose peer now outcome with
    same | failed | ⟨ack, -, booked⟩ | ⟨ack, m, next, answer, -, -, handled, booked⟩
  · rw [same]
    exact filed
  · rw [failed]
    exact filed.adjust fun _ old => old.fail now
  · rw [booked]
    exact filed.adjust fun _ old => old.succeed ack.version now
  · rw [booked]
    exact (filed_of_handle handled filed).adjust fun _ old => old.succeed ack.version now

theorem id_of_conclude (n : Node) (purpose : Purpose) (peer : NodeId) (now : Millis)
    (outcome : Except ExchangeError Acknowledgment) :
    (n.conclude purpose peer now outcome).1.id = n.id := by
  rcases n.conclude_cases purpose peer now outcome with
    same | failed | ⟨ack, -, booked⟩ | ⟨ack, m, next, answer, -, -, handled, booked⟩
  · rw [same]
  · rw [failed]
    rfl
  · rw [booked]
    rfl
  · rw [booked]
    exact (id_of_handle handled : next.id = n.id)

/-- Booking an exchange changes no address. -/
theorem addresses_of_conclude (n : Node) (purpose : Purpose) (peer : NodeId) (now : Millis)
    (outcome : Except ExchangeError Acknowledgment) :
    (n.conclude purpose peer now outcome).1.peers.parts Peer.address =
      n.peers.parts Peer.address := by
  rcases n.conclude_cases purpose peer now outcome with
    same | failed | ⟨ack, -, booked⟩ | ⟨ack, m, next, answer, -, -, handled, booked⟩
  · rw [same]
  · rw [failed]
    exact Roster.parts_adjust fun _ => rfl
  · rw [booked]
    exact Roster.parts_adjust fun _ => rfl
  · rw [booked]
    have taken := parts_of_handle Peer.address handled (fun _ => rfl) fun _ => rfl
    refine Eq.trans ?_ taken
    exact Roster.parts_adjust fun _ => rfl

end Node

end ThreatGossip

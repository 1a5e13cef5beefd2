import Mathlib.Data.List.DropRight
import ThreatGossip.Proofs.Doubles
import ThreatGossip.Proofs.Standings
/-!
The course of a roster. Whatever is done to a roster acts on each entry by itself, so an entry can be
read off what was done since the peer was registered: when it was last heard from, which exchanges
failed, which versions it reported, and the last time at which its standing was set.
-/
namespace ThreatGossip

/-- What can be done to a roster. -/
inductive Operation where
  | register (i : Introduction) (now : Millis)
  | remove (id : NodeId)
  | touch (id : NodeId) (now : Millis)
  | learn (id : NodeId) (version : Clock)
  | succeed (id : NodeId) (acked : Clock) (now : Millis)
  | fail (id : NodeId) (now : Millis)
  | refresh (now : Millis)
  | evict (maxAge : Nat) (now : Millis)

namespace Roster

/-- A refused operation leaves the roster as it was. -/
def perform (r : Roster) : Operation → Roster
  | .register i now => (r.register i now).toOption.getD r
  | .remove id => r.remove id
  | .touch id now => (r.touch id now).toOption.getD r
  | .learn id version => r.learn id version
  | .succeed id acked now => (r.recordSuccess id acked now).1
  | .fail id now => (r.recordFailure id now).1
  | .refresh now => r.refreshAll now
  | .evict maxAge now => r.evict maxAge now

def after (r : Roster) (ops : List Operation) : Roster := ops.foldl perform r

theorem after_concat (r : Roster) (ops : List Operation) (op : Operation) :
    r.after (ops ++ [op]) = (r.after ops).perform op := List.foldl_append ..

end Roster

namespace Operation

variable {owner id : NodeId} {op : Operation} {p p' : Peer}

/-- The exchange with a peer that is booked: whether it succeeded. -/
def outcome? (id : NodeId) : Operation → Option Bool
  | succeed q _ _ => if q = id then some true else none
  | fail q _ => if q = id then some false else none
  | _ => none

/-- The time at which a peer is heard from. -/
def contact? (id : NodeId) : Operation → Option Millis
  | touch q now | succeed q _ now => if q = id then some now else none
  | _ => none

/-- The version that a peer is known to have. -/
def news? (id : NodeId) : Operation → Option Clock
  | learn q version | succeed q version _ => if q = id then some version else none
  | _ => none

/-- The time for which the standing of a peer is set. -/
def review? (id : NodeId) : Operation → Option Millis
  | touch q now | succeed q _ now | fail q now => if q = id then some now else none
  | refresh now => some now
  | _ => none

/-- How many exchanges with a peer have failed in a row, up to now. -/
def failures (id : NodeId) (ops : List Operation) : Nat :=
  ((ops.filterMap (·.outcome? id)).rtakeWhile fun succeeded => !succeeded).length

/-- What an operation makes of the entry of one peer. -/
def entry (owner id : NodeId) : Operation → Option Peer → Option Peer
  | register i now, e =>
    if i.id = id ∧ id ≠ owner ∧ id ≠ "" ∧ Text.allBlank i.address = false then
      some (match e with
        | some known => { known with address := i.address, publicKey := i.publicKey }
        | none => (Roster.newPeer i now).refresh now)
    else e
  | remove q, e => if q = id then none else e
  | touch q now, e => if q = id then e.map (·.touch now) else e
  | learn q version, e => if q = id then e.map (·.learn version) else e
  | succeed q acked now, e => if q = id then e.map (·.succeed acked now) else e
  | fail q now, e => if q = id then e.map (·.fail now) else e
  | refresh now, e => e.map (·.refresh now)
  | evict maxAge now, e => e.filter fun p => !p.isStale maxAge now

/-- What an operation makes of an entry that stays. -/
structure Carries (op : Operation) (id : NodeId) (p p' : Peer) : Prop where
  own : p'.id = p.id
  address : p'.address = p.address ∨ Text.allBlank p'.address = false
  trust : p'.trust = (op.outcome? id).elim p.trust (Trust.after p.trust)
  lastSeen : p'.lastSeen = (op.contact? id).elim p.lastSeen (max p.lastSeen)
  failures : p'.failures = (op.outcome? id).elim p.failures fun succeeded =>
    if succeeded then 0 else p.failures + 1
  version : p'.version = (op.news? id).elim p.version p.version.join
  standing : p'.standing = (op.review? id).elim p.standing p'.standingAt

theorem Carries.of_untouched (outcome : op.outcome? id = none) (contact : op.contact? id = none)
    (news : op.news? id = none) (review : op.review? id = none) : op.Carries id p p := by
  constructor <;> simp [outcome, contact, news, review]

/-- An entry was there before the operation, or a peer is registered. -/
theorem entry_cases {e : Option Peer} (h : op.entry owner id e = some p') :
    (∃ p, e = some p ∧ op.Carries id p p') ∨
      e = none ∧ ∃ i now, op = register i now ∧ i.id = id ∧ id ≠ owner ∧ id ≠ "" ∧
        Text.allBlank i.address = false ∧ p' = (Roster.newPeer i now).refresh now := by
  cases op with
  | register i now =>
      simp only [entry] at h
      split at h
      next accepted =>
        obtain ⟨same, foreign, named, addressed⟩ := accepted
        obtain rfl := Option.some.inj h
        cases e with
        | some known =>
            exact .inl ⟨known, rfl, rfl, .inr addressed, rfl, rfl, rfl, rfl, rfl⟩
        | none => exact .inr ⟨rfl, i, now, rfl, same, foreign, named, addressed, rfl⟩
      next => exact .inl ⟨p', h, .of_untouched rfl rfl rfl rfl⟩
  | remove q =>
      simp only [entry] at h
      split at h
      next => nomatch h
      next => exact .inl ⟨p', h, .of_untouched rfl rfl rfl rfl⟩
  | learn q version =>
      simp only [entry] at h
      split at h
      next same =>
        obtain ⟨p, rfl, rfl⟩ := Option.map_eq_some_iff.mp h
        refine .inl ⟨p, rfl, rfl, .inl rfl, rfl, rfl, rfl, ?_, rfl⟩
        rw [news?, if_pos same]
        rfl
      next other =>
        refine .inl ⟨p', h, .of_untouched rfl rfl ?_ rfl⟩
        rw [news?, if_neg other]
  | touch q now | succeed q acked now | fail q now =>
      simp only [entry] at h
      split at h
      next same =>
        obtain ⟨p, rfl, rfl⟩ := Option.map_eq_some_iff.mp h
        refine .inl ⟨p, rfl, rfl, .inl rfl, ?_, ?_, ?_, ?_, ?_⟩ <;>
          simp only [outcome?, contact?, news?, review?, if_pos same] <;> rfl
      next other =>
        refine .inl ⟨p', h, .of_untouched ?_ ?_ ?_ ?_⟩ <;>
          simp only [outcome?, contact?, news?, review?, if_neg other]
  | refresh now =>
      obtain ⟨p, rfl, rfl⟩ := Option.map_eq_some_iff.mp h
      exact .inl ⟨p, rfl, rfl, .inl rfl, rfl, rfl, rfl, rfl, rfl⟩
  | evict maxAge now =>
      exact .inl ⟨p', (Option.filter_eq_some_iff.mp h).1, .of_untouched rfl rfl rfl rfl⟩

end Operation

namespace Roster

variable {r : Roster} {id : NodeId}

/-- A peer is registered unless it is the node itself, nameless or without an address. -/
theorem register_cases (r : Roster) (i : Introduction) (now : Millis) :
    (i.id ≠ r.owner ∧ i.id ≠ "" ∧ Text.allBlank i.address = false) ∧
      r.register i now = .ok { r with
        peers := r.peers.insert i.id (match r.get? i.id with
          | some known => { known with address := i.address, publicKey := i.publicKey }
          | none => (newPeer i now).refresh now) } ∨
    ¬(i.id ≠ r.owner ∧ i.id ≠ "" ∧ Text.allBlank i.address = false) ∧
      ∃ e, r.register i now = .error e := by
  unfold register
  by_cases own : i.id = r.owner
  · exact .inr ⟨fun accepted => accepted.1 own, _, if_pos own⟩
  rw [if_neg own]
  by_cases nameless : i.id = ""
  · exact .inr ⟨fun accepted => accepted.2.1 nameless, _, if_pos nameless⟩
  rw [if_neg nameless]
  cases blank : Text.allBlank i.address with
  | true => exact .inr ⟨fun accepted => (nomatch accepted.2.2), _, rfl⟩
  | false => exact .inl ⟨⟨own, nameless, rfl⟩, rfl⟩

theorem perform_touch (r : Roster) (q : NodeId) (now : Millis) :
    r.perform (.touch q now) = r.adjust q (·.touch now) := by
  simp only [perform, Roster.touch]
  split
  next => rfl
  next unknown =>
    rw [contains_iff, not_exists, ← Option.eq_none_iff_forall_ne_some] at unknown
    unfold adjust
    rw [unknown]
    rfl

/-- An operation acts on each entry by itself. -/
theorem get?_perform (r : Roster) (op : Operation) (id : NodeId) :
    (r.perform op).get? id = op.entry r.owner id (r.get? id) := by
  have adjusted (q : NodeId) (f : Peer → Peer) :
      (r.adjust q f).get? id = if q = id then (r.get? id).map f else r.get? id := by
    rw [get?_adjust]
    split
    next same => rw [if_pos same.symm, same]
    next other => rw [if_neg (Ne.symm other)]
  cases op with
  | register i now =>
      simp only [perform, Operation.entry]
      rcases r.register_cases i now with ⟨accepted, registered⟩ | ⟨refused, e, registered⟩
      · rw [registered]
        refine (SortedMap.get?_insert ..).trans ?_
        by_cases same : id = i.id
        · subst same
          rw [if_pos rfl, if_pos ⟨rfl, accepted⟩]
        · rw [if_neg same, if_neg fun accepted => same accepted.1.symm]
          rfl
      · rw [registered, if_neg]
        · rfl
        · rintro ⟨rfl, accepted⟩
          exact refused accepted
  | remove q =>
      simp only [perform, Operation.entry, remove, Roster.get?, SortedMap.get?_erase, eq_comm]
  | touch q now =>
      rw [perform_touch]
      exact adjusted q _
  | learn q version => exact adjusted q _
  | succeed q acked now => exact adjusted q _
  | fail q now => exact adjusted q _
  | refresh now => exact get?_refreshAll ..
  | evict maxAge now => exact get?_evict ..

theorem owner_perform (r : Roster) (op : Operation) : (r.perform op).owner = r.owner := by
  have adjusted (q : NodeId) (f : Peer → Peer) : (r.adjust q f).owner = r.owner := by
    unfold adjust
    cases r.get? q <;> rfl
  cases op with
  | register i now =>
      rcases r.register_cases i now with ⟨-, registered⟩ | ⟨-, e, registered⟩ <;>
        rw [perform, registered] <;> rfl
  | touch q now =>
      rw [perform_touch]
      exact adjusted q _
  | learn q version => exact adjusted q _
  | succeed q acked now => exact adjusted q _
  | fail q now => exact adjusted q _
  | remove q | refresh now | evict maxAge now => rfl

theorem owner_after (r : Roster) (ops : List Operation) : (r.after ops).owner = r.owner := by
  induction ops using List.reverseRecOn with
  | nil => rfl
  | append_singleton ops op ih => rw [after_concat, owner_perform, ih]

end Roster

namespace Roster

variable {owner : NodeId} {P : NodeId → Peer → Prop} {r : Roster}

/-- What new entries have and operations keep, all entries keep. -/
theorem Every.perform (h : r.Every P)
    (new : ∀ id i now, i.id = id → id ≠ r.owner → id ≠ "" → Text.allBlank i.address = false →
      P id ((newPeer i now).refresh now))
    (carry : ∀ op id p p', Operation.Carries op id p p' → P id p → P id p') (op : Operation) :
    (r.perform op).Every P := by
  intro id p known
  rw [get?_perform] at known
  rcases Operation.entry_cases known with
    ⟨old, found, carries⟩ | ⟨-, i, now, -, own, foreign, named, addressed, rfl⟩
  · exact carry op id old p carries (h id old found)
  · exact new id i now own foreign named addressed

theorem every_after
    (new : ∀ id i now, i.id = id → id ≠ owner → id ≠ "" → Text.allBlank i.address = false →
      P id ((newPeer i now).refresh now))
    (carry : ∀ op id p p', Operation.Carries op id p p' → P id p → P id p')
    (ops : List Operation) : ((empty owner).after ops).Every P := by
  induction ops using List.reverseRecOn with
  | nil => exact every_empty owner
  | append_singleton ops op ih =>
      rw [after_concat]
      exact ih.perform (owner_after (empty owner) ops ▸ new) carry op

end Roster

/-- What holds of every entry of a roster. -/
structure Peer.Sound (owner id : NodeId) (p : Peer) : Prop where
  own : p.id = id
  foreign : id ≠ owner
  named : id ≠ ""
  addressed : Text.allBlank p.address = false
  score : Trust.Score p.trust

/-- An entry as it follows from what was done since its peer was registered. -/
structure Peer.Recorded (id : NodeId) (registered : Millis) (since : List Operation) (p : Peer) :
    Prop where
  lastSeen : p.lastSeen = (since.filterMap (·.contact? id)).foldl max registered
  failures : p.failures.toNat = Operation.failures id since
  version : p.version = (since.filterMap (·.news? id)).foldl Clock.join .empty
  standing : p.standing = p.standingAt ((since.filterMap (·.review? id)).getLastD registered)

namespace Operation

theorem filterMap_concat {α β : Type} (f : α → Option β) (as : List α) (a : α) :
    (as ++ [a]).filterMap f = as.filterMap f ++ (f a).toList := by
  rw [List.filterMap_append]
  cases same : f a <;> simp [same]

theorem failures_le (id : NodeId) (ops : List Operation) :
    failures id ops ≤ (ops.filterMap (·.outcome? id)).count false := by
  have all_failed : ∀ succeeded ∈ (ops.filterMap (·.outcome? id)).rtakeWhile fun b => !b,
      false = succeeded := by
    intro succeeded row
    cases succeeded with
    | false => rfl
    | true => exact absurd (List.mem_rtakeWhile_imp row) Bool.false_ne_true
  unfold failures
  rw [← List.count_eq_length.mpr all_failed]
  exact (List.rtakeWhile_suffix _ _).sublist.count_le _

end Operation

namespace Operation.Carries

variable {owner id : NodeId} {op : Operation} {p p' : Peer} {registered : Millis}
  {since : List Operation}

theorem sound (h : op.Carries id p p') (old : p.Sound owner id) : p'.Sound owner id where
  own := h.own.trans old.own
  foreign := old.foreign
  named := old.named
  addressed := h.address.elim (fun same => same ▸ old.addressed) fun given => given
  score := by
    rw [h.trust]
    cases op.outcome? id with
    | none => exact old.score
    | some succeeded => exact Trust.score_after old.score succeeded

/-- The times of review are among those of a change. -/
theorem unreviewed (h : op.Carries id p p') (review : op.review? id = none) :
    p'.trust = p.trust ∧ p'.lastSeen = p.lastSeen := by
  obtain ⟨outcome, contact⟩ : op.outcome? id = none ∧ op.contact? id = none := by
    cases op <;> simp_all [review?, outcome?, contact?]
  rw [h.trust, h.lastSeen, outcome, contact]
  exact ⟨rfl, rfl⟩

theorem recorded (h : op.Carries id p p') (old : p.Recorded id registered since)
    (few : ((since ++ [op]).filterMap (·.outcome? id)).count false < 2 ^ 32) :
    p'.Recorded id registered (since ++ [op]) where
  lastSeen := by
    rw [h.lastSeen, filterMap_concat, List.foldl_append, ← old.lastSeen]
    cases op.contact? id <;> rfl
  failures := by
    have room := lt_of_le_of_lt (failures_le id (since ++ [op])) few
    unfold Operation.failures at room ⊢
    rw [h.failures]
    have before := old.failures
    unfold Operation.failures at before
    rw [filterMap_concat] at room ⊢
    rcases outcome : op.outcome? id with _ | _ | _
    · rw [Option.toList_none, List.append_nil]
      exact before
    · rw [outcome, Option.toList_some, List.rtakeWhile_concat_pos _ _ _ rfl,
        List.length_append] at room
      rw [Option.toList_some, List.rtakeWhile_concat_pos _ _ _ rfl, List.length_append]
      change (p.failures + 1).toNat = _
      rw [UInt32.toNat_add, before]
      exact Nat.mod_eq_of_lt room
    · rw [Option.toList_some, List.rtakeWhile_concat_neg _ _ _ Bool.false_ne_true]
      rfl
  version := by
    rw [h.version, filterMap_concat, List.foldl_append, ← old.version]
    cases op.news? id <;> rfl
  standing := by
    rw [h.standing, filterMap_concat]
    cases review : op.review? id with
    | none =>
        obtain ⟨trust, lastSeen⟩ := h.unreviewed review
        rw [Option.toList_none, List.append_nil]
        refine old.standing.trans ?_
        unfold Peer.standingAt
        rw [trust, lastSeen]
    | some now =>
        rw [Option.toList_some, List.getLastD_concat]
        rfl

end Operation.Carries

theorem Peer.recorded_newPeer (id : NodeId) (i : Introduction) (now : Millis) :
    ((Roster.newPeer i now).refresh now).Recorded id now [] :=
  ⟨rfl, rfl, rfl, rfl⟩

namespace Roster

variable {owner id : NodeId} {ops : List Operation} {p : Peer} {r : Roster}

theorem sound_after (owner : NodeId) (ops : List Operation) :
    ((empty owner).after ops).Every (Peer.Sound owner) :=
  every_after (fun _ i _ own foreign named addressed =>
    ⟨own, foreign, named, addressed, Trust.score_ofGiven i.trust⟩)
    (fun _ _ _ _ carries old => carries.sound old) ops

/-- The peer was registered at a time, and its entry has stayed since. -/
def Story (owner id : NodeId) (ops : List Operation) (p : Peer) : Prop :=
  ∃ before i registered since, ops = before ++ .register i registered :: since ∧ i.id = id ∧
    ((empty owner).after before).get? id = none ∧
    (∀ part, part <+: since →
      ((empty owner).after (before ++ .register i registered :: part)).contains id) ∧
    p.Recorded id registered since

theorem story (known : ((empty owner).after ops).get? id = some p)
    (few : (ops.filterMap (·.outcome? id)).count false < 2 ^ 32) : Story owner id ops p := by
  induction ops using List.reverseRecOn generalizing p with
  | nil => nomatch known
  | append_singleton ops op ih =>
      have here := contains_iff.mpr ⟨p, known⟩
      rw [after_concat, get?_perform, owner_after] at known
      rcases Operation.entry_cases known with
        ⟨old, found, carries⟩ | ⟨absent, i, now, rfl, own, -, -, -, rfl⟩
      · have fewer := (List.sublist_append_left ops [op]).filterMap (·.outcome? id) |>.count_le false
        obtain ⟨before, i, registered, since, rfl, own, absent, stayed, recorded⟩ :=
          ih found (lt_of_le_of_lt fewer few)
        refine ⟨before, i, registered, since ++ [op], ?_, own, absent, ?_,
          carries.recorded recorded (lt_of_le_of_lt (List.Sublist.count_le false ?_) few)⟩
        · rw [List.append_assoc, List.cons_append]
        · intro part inside
          rcases List.prefix_concat_iff.mp inside with rfl | inside
          · rw [List.append_assoc, List.cons_append] at here
            exact here
          · exact stayed part inside
        · rw [List.append_assoc, List.cons_append]
          exact ((List.sublist_cons_self ..).trans (List.sublist_append_right ..)).filterMap _
      · refine ⟨ops, i, now, [], rfl, own, absent, ?_, Peer.recorded_newPeer id i now⟩
        intro part inside
        obtain rfl := List.prefix_nil.mp inside
        exact here

/-- Entries stand in the order of their ids. -/
theorem pairwise_list (h : r.Every fun id p => p.id = id) :
    r.list.Pairwise (·.id < ·.id) := by
  refine List.pairwise_map.mpr (r.peers.ascending.imp_of_mem fun {a b} first second less => ?_)
  rw [h a.1 a.2 (SortedMap.get?_eq_some_iff.mpr first),
    h b.1 b.2 (SortedMap.get?_eq_some_iff.mpr second)]
  exact compareOfLessAndEq_eq_lt.mp less

/-- Of whatever part of the list, no id is named twice. -/
theorem nodup_ids (h : r.Every fun id p => p.id = id) (keep : Peer → Bool) :
    ((r.list.filter keep).map (·.id)).Nodup :=
  List.pairwise_map.mpr (((pairwise_list h).filter keep).imp String.ne_of_lt)

/-- Every peer is counted once. -/
theorem census_adds_up (r : Roster) : r.census.active + r.census.suspicious +
    r.census.quarantined + r.census.offline = r.census.total := by
  simp only [census, ← List.countP_eq_length_filter]
  induction r.list with
  | nil => rfl
  | cons p ps ih =>
      simp only [List.countP_cons, List.length_cons, ← ih]
      cases p.standing <;> simp <;> omega

end Roster

namespace Handler

/-- The checks of a registration. -/
def check (i : Introduction) : Handler Unit := do
  let n ← get
  if i.id = n.peers.owner then throw (.peer .selfRegistration)
  else if i.id = "" then throw (.peer .emptyId)
  else if Text.allBlank i.address then throw (.peer (.noAddress i.id))

def enter (id : NodeId) (p : Peer) : Handler Unit :=
  modify fun n => { n with peers := { n.peers with peers := n.peers.peers.insert id p } }

/-- Registers a peer in place, in the order of the text: the checks, and then one part of the entry
after the other. -/
def register (i : Introduction) (now : Millis) : Handler Unit := do
  check i
  let n ← get
  match n.peers.get? i.id with
  | some known =>
    enter i.id { known with address := i.address }
    enter i.id { known with address := i.address, publicKey := i.publicKey }
  | none => enter i.id ((Roster.newPeer i now).refresh now)

theorem on_enter (id : NodeId) (p : Peer) (n : Node) : (enter id p).on n =
    (.ok (), { n with peers := { n.peers with peers := n.peers.peers.insert id p } }) := rfl

theorem on_check (i : Introduction) (now : Millis) (n : Node) :
    (check i).on n = match n.peers.register i now with
      | .ok _ => (.ok (), n)
      | .error e => (.error (.peer e), n) := by
  unfold check Roster.register
  rw [on_bind]
  change Handler.on (if i.id = n.peers.owner then _ else _) n = _
  split
  next => rfl
  next =>
  split
  next => rfl
  next =>
  split
  next => rfl
  next => rfl

/-- Registering in place ends as registering does, and an error leaves the node as it was. -/
theorem on_register (i : Introduction) (now : Millis) (n : Node) :
    (register i now).on n = match n.peers.register i now with
      | .ok peers => (.ok (), { n with peers })
      | .error e => (.error (.peer e), n) := by
  unfold register
  rw [on_bind, on_check i now]
  rcases n.peers.register_cases i now with ⟨-, registered⟩ | ⟨-, e, registered⟩
  · rw [registered]
    dsimp only
    rw [on_bind]
    change Handler.on (match n.peers.get? i.id with
      | some known => _
      | none => _) n = _
    cases n.peers.get? i.id with
    | none => rfl
    | some known =>
        dsimp only
        rw [on_bind, on_enter]
        dsimp only
        rw [on_enter, SortedMap.insert_insert]
  · rw [registered]

end Handler

/-- What holds of a roster after the operations on it. -/
structure Roster.Accounted (owner : NodeId) (ops : List Operation) (r : Roster) : Prop where
  sound : r.Every (Peer.Sound owner)
  told : r.Every fun id p => Roster.Story owner id ops p
  ordered : r.list.Pairwise (·.id < ·.id)
  counted : r.census.active + r.census.suspicious + r.census.quarantined + r.census.offline =
    r.census.total

/-- Every roster that operations lead to is in order, whatever they are and whatever their times;
and a registration that is refused, done in place, changes nothing. -/
theorem Roster.operations_accounted (owner : NodeId) (ops : List Operation)
    (few : ∀ id, (ops.filterMap (·.outcome? id)).count false < 2 ^ 32) :
    Roster.Accounted owner ops ((empty owner).after ops) ∧
    ∀ (n : Node) (i : Introduction) (now : Millis),
      (∀ e left, (Handler.register i now).on n = (.error e, left) ↔
        (∃ e', n.peers.register i now = .error e' ∧ e = .peer e') ∧ left = n) ∧
      ∀ next, (Handler.register i now).on n = (.ok (), next) ↔
        ∃ peers, n.peers.register i now = .ok peers ∧ next = { n with peers } := by
  refine ⟨⟨sound_after owner ops, fun id p known => story known (few id),
    pairwise_list fun id p known => (sound_after owner ops id p known).own,
    census_adds_up _⟩, fun n i now => ⟨fun e left => ?_, fun next => ?_⟩⟩
  all_goals
    rw [Handler.on_register]
    cases n.peers.register i now with
    | error e' => simp [eq_comm]
    | ok peers => simp [eq_comm]

/-- A peer that fails twice and is heard from at an earlier time. -/
theorem Roster.failures_accounted :
    (∀ id, (([.register ⟨"b", "b:1", [], none⟩ 7, .fail "b" 9, .fail "b" 8, .touch "b" 3] :
      List Operation).filterMap (·.outcome? id)).count false < 2 ^ 32) ∧
    Roster.Accounted "a" [.register ⟨"b", "b:1", [], none⟩ 7, .fail "b" 9, .fail "b" 8, .touch "b" 3]
      ((empty "a").after
        [.register ⟨"b", "b:1", [], none⟩ 7, .fail "b" 9, .fail "b" 8, .touch "b" 3]) ∧
    ((empty "a").after
      [.register ⟨"b", "b:1", [], none⟩ 7, .fail "b" 9, .fail "b" 8, .touch "b" 3]).contains "b" := by
  have few (id : NodeId) : (([.register ⟨"b", "b:1", [], none⟩ 7, .fail "b" 9, .fail "b" 8,
      .touch "b" 3] : List Operation).filterMap (·.outcome? id)).count false < 2 ^ 32 :=
    lt_of_le_of_lt List.count_le_length
      (lt_of_le_of_lt (List.length_filterMap_le ..) (by decide))
  exact ⟨few, (operations_accounted "a" _ few).1, rfl⟩

end ThreatGossip

import Mathlib.Data.List.Dedup
import Mathlib.Data.List.DropRight
import ThreatGossip.Proofs.Operations
import ThreatGossip.Settings.Start
/-!
Bootstrap peers. A peer that was read from a text has an id, and an address that is not blank, and
settings that are accepted name no peer like the node itself, so no peer of theirs is refused. Once
all are registered, the node knows each of them under the last address that was given for it.
-/
namespace ThreatGossip

/-- What is left after trimming does not end in a blank. -/
theorem Text.isBlank_of_trim_eq {cs front : List Char} {c : Char} (h : trim cs = front ++ [c]) :
    isBlank c = false := by
  have left : (cs.dropWhile isBlank).rdropWhile isBlank = front ++ [c] := h
  have last := List.rdropWhile_last_not isBlank (cs.dropWhile isBlank) (by simp [left])
  simp only [left, List.getLast_concat] at last
  exact Bool.eq_false_iff.mpr last

theorem isSome_eq_of_rel {α β : Type} {R : α → β → Prop} :
    ∀ {a : Option α} {b : Option β}, Option.Rel R a b → a.isSome = b.isSome
  | _, _, .some _ => rfl
  | _, _, .none => rfl

theorem Trust.ofGiven_none : ofGiven none = initial := rfl

namespace BootstrapPeer

/-- A text is split at its first `@`. -/
theorem splitAt?_eq_some_iff {cs left right : List Char} :
    splitAt? cs = some (left, right) ↔ cs = left ++ '@' :: right ∧ '@' ∉ left := by
  induction cs generalizing left with
  | nil => simp [splitAt?]
  | cons c rest ih =>
      by_cases sign : c = '@'
      · subst sign
        cases left with
        | nil => simp [splitAt?]
        | cons d left =>
            refine ⟨fun split => (nomatch split), fun ⟨same, absent⟩ => ?_⟩
            obtain ⟨rfl, -⟩ := List.cons.inj same
            exact absurd List.mem_cons_self absent
      · rw [splitAt?.eq_3 _ _ sign, Option.map_eq_some_iff]
        constructor
        · rintro ⟨⟨left', right'⟩, split, same⟩
          obtain ⟨rfl, rfl⟩ := Prod.mk.inj same
          obtain ⟨rfl, absent⟩ := ih.mp split
          exact ⟨rfl, List.not_mem_cons_of_ne_of_not_mem (Ne.symm sign) absent⟩
        · rintro ⟨same, absent⟩
          cases left with
          | nil => exact absurd (List.cons.inj same).1 sign
          | cons d left =>
              obtain ⟨rfl, rest_eq⟩ := List.cons.inj same
              exact ⟨(left, right), ih.mpr ⟨rest_eq, List.not_mem_of_not_mem_cons absent⟩, rfl⟩

/-- A text is read as a peer if something stands before its first `@` and something behind it, blanks
around the whole left aside. -/
theorem parse_eq_ok_iff {text : String} {p : BootstrapPeer} :
    parse text = .ok p ↔ Text.trim text.toList = p.id.toList ++ '@' :: p.address.toList ∧
      '@' ∉ p.id.toList ∧ p.id ≠ "" ∧ p.address ≠ "" := by
  obtain ⟨id, address⟩ := p
  rw [← and_assoc, ← splitAt?_eq_some_iff]
  unfold parse
  constructor
  · intro read
    split at read
    next i is a as split =>
      obtain ⟨rfl, rfl⟩ := BootstrapPeer.mk.inj (Except.ok.inj read)
      simp [split]
    next => nomatch read
  · rintro ⟨split, named, placed⟩
    obtain ⟨i, is, id_eq⟩ := List.exists_cons_of_ne_nil (mt String.toList_eq_nil_iff.mp named)
    obtain ⟨a, as, address_eq⟩ := List.exists_cons_of_ne_nil (mt String.toList_eq_nil_iff.mp placed)
    rw [split, id_eq, address_eq]
    dsimp only
    rw [← id_eq, ← address_eq, String.ofList_toList, String.ofList_toList]

/-- What is read has an id, and an address that is not blank. -/
theorem of_parse {text : String} {p : BootstrapPeer} (read : parse text = .ok p) :
    p.id ≠ "" ∧ Text.allBlank p.address = false := by
  obtain ⟨trimmed, -, named, placed⟩ := parse_eq_ok_iff.mp read
  refine ⟨named, ?_⟩
  rcases List.eq_nil_or_concat' p.address.toList with nothing | ⟨front, last, ends⟩
  · exact absurd (String.toList_eq_nil_iff.mp nothing) placed
  · rw [ends, ← List.cons_append, ← List.append_assoc] at trimmed
    simp [Text.allBlank, ends, Text.isBlank_of_trim_eq trimmed]

/-- No check of a registration refuses the peer at a node of the name. -/
structure Fits (owner : NodeId) (p : BootstrapPeer) : Prop where
  foreign : p.id ≠ owner
  named : p.id ≠ ""
  addressed : Text.allBlank p.address = false

/-- A peer that is registered at a time. -/
def registration (e : BootstrapPeer × Millis) : Operation := .register e.1.introduction e.2

/-- The last of the peers that have the id. -/
def lastOf (bootstrap : List BootstrapPeer) (id : NodeId) : Option BootstrapPeer :=
  bootstrap.reverse.find? (·.id = id)

theorem lastOf_concat (bootstrap : List BootstrapPeer) (p : BootstrapPeer) (id : NodeId) :
    lastOf (bootstrap ++ [p]) id = if p.id = id then some p else lastOf bootstrap id := by
  unfold lastOf
  rw [List.reverse_append, List.reverse_singleton, List.singleton_append, List.find?_cons]
  by_cases same : p.id = id <;> simp [same]

theorem id_of_lastOf {bootstrap : List BootstrapPeer} {id : NodeId} {p : BootstrapPeer}
    (last : lastOf bootstrap id = some p) : p.id = id := by
  simpa using List.find?_some last

theorem lastOf_isSome_iff {bootstrap : List BootstrapPeer} {id : NodeId} :
    (lastOf bootstrap id).isSome = true ↔ id ∈ bootstrap.map (·.id) := by
  simp [lastOf]

/-- The entry of a peer that has only been registered, the last time as this one. -/
structure Enters (b : BootstrapPeer) (p : Peer) : Prop where
  own : p.id = b.id
  address : p.address = b.address
  trust : p.trust = Trust.initial
  version : p.version = .empty

theorem enters_newPeer (b : BootstrapPeer) (now : Millis) :
    Enters b ((Roster.newPeer b.introduction now).refresh now) := by
  have given : ((Roster.newPeer b.introduction now).refresh now).trust =
    Trust.ofGiven b.introduction.trust := rfl
  exact ⟨rfl, rfl, given.trans Trust.ofGiven_none, rfl⟩

/-- A peer of the same id that comes later has its address entered, and nothing else. -/
theorem Enters.again {b later : BootstrapPeer} {p : Peer} (h : Enters b p)
    (same : later.id = b.id) : Enters later { p with
      address := later.introduction.address, publicKey := later.introduction.publicKey } :=
  ⟨h.own.trans same.symm, rfl, h.trust, h.version⟩

end BootstrapPeer

namespace Roster

open BootstrapPeer (Fits registration lastOf Enters)

variable {owner : NodeId} {entries : List (BootstrapPeer × Millis)}

/-- After the registrations there is an entry for each id among them, made for the last peer of the
id, and no other entry. -/
theorem rel_after_registrations (fit : ∀ e ∈ entries, e.1.Fits owner) (id : NodeId) :
    Option.Rel Enters (lastOf (entries.map (·.1)) id)
      (((empty owner).after (entries.map registration)).get? id) := by
  induction entries using List.reverseRecOn with
  | nil => exact .none
  | append_singleton entries e ih =>
      have before := ih fun f member => fit f (List.mem_append_left _ member)
      have fits := fit e (List.mem_append_right _ (List.mem_singleton_self e))
      simp only [List.map_append, List.map_singleton, BootstrapPeer.lastOf_concat, after_concat,
        get?_perform, owner_after, registration, Operation.entry]
      by_cases same : e.1.id = id
      · rw [if_pos same, if_pos ⟨same, same ▸ fits.foreign, same ▸ fits.named, fits.addressed⟩]
        refine .some ?_
        -- The peer is new unless an earlier one had its id, whose entry then changes its address.
        generalize ((empty owner).after (entries.map registration)).get? id = known at before ⊢
        cases last : lastOf (entries.map (·.1)) id with
        | none =>
            rw [last] at before
            cases before
            exact BootstrapPeer.enters_newPeer e.1 e.2
        | some b =>
            rw [last] at before
            cases before with
            | some entered =>
                exact entered.again (same.trans (BootstrapPeer.id_of_lastOf last).symm)
      · rw [if_neg same, if_neg fun accepted => same accepted.1]
        exact before

end Roster

namespace Node

open BootstrapPeer (Fits registration lastOf Enters)

/-- Registers peers in order, each at its time, up to the first that is refused. -/
def enroll (n : Node) (entries : List (BootstrapPeer × Millis)) : Except PeerError Node :=
  entries.foldlM (fun n e => n.addPeer e.1.introduction e.2) n

theorem addPeer_of_fits {n : Node} {p : BootstrapPeer} (h : p.Fits n.peers.owner) (now : Millis) :
    n.addPeer p.introduction now =
      .ok { n with peers := n.peers.perform (registration (p, now)) } := by
  rcases n.peers.register_cases p.introduction now with ⟨-, registered⟩ | ⟨refused, -⟩
  · simp only [addPeer, registration, Roster.perform, registered]
    rfl
  · exact absurd ⟨h.foreign, h.named, h.addressed⟩ refused

theorem enroll_of_fits {n : Node} {entries : List (BootstrapPeer × Millis)}
    (fit : ∀ e ∈ entries, e.1.Fits n.peers.owner) :
    n.enroll entries = .ok { n with peers := n.peers.after (entries.map registration) } := by
  induction entries generalizing n with
  | nil => rfl
  | cons e rest ih =>
      obtain ⟨first, others⟩ := List.forall_mem_cons.mp fit
      unfold enroll at ih ⊢
      rw [List.foldlM_cons, addPeer_of_fits first]
      refine ih fun f member => ?_
      rw [Roster.owner_perform]
      exact others f member

/-- The new node of the name knows the bootstrap peers and nobody else, and nothing has happened
between them. -/
structure Acquainted (n : Node) (id : NodeId) (bootstrap : List BootstrapPeer) : Prop where
  fresh : n = { Node.empty id with peers := n.peers }
  foreign : n.peers.contains id = false
  /-- Each id that is given is listed once. -/
  listed : (n.peers.list.map (·.id)).Perm (bootstrap.map (·.id)).dedup
  /-- An id has an entry if it is given, made for the last peer that it is given for. -/
  entries : ∀ q, Option.Rel Enters (lastOf bootstrap q) (n.peers.get? q)

theorem acquainted_of_fits {id : NodeId} {entries : List (BootstrapPeer × Millis)}
    (fit : ∀ e ∈ entries, e.1.Fits id) :
    Acquainted { Node.empty id with
      peers := (Roster.empty id).after (entries.map registration) } id (entries.map (·.1)) := by
  have rel := Roster.rel_after_registrations fit
  have sound := Roster.sound_after id (entries.map registration)
  generalize (Roster.empty id).after (entries.map registration) = roster at rel sound
  have own : roster.Every fun id p => p.id = id := fun q p found => (sound q p found).own
  have once : (roster.list.map (·.id)).Nodup := by simpa using Roster.nodup_ids own fun _ => true
  refine ⟨rfl, ?_, ?_, rel⟩
  · rw [← Bool.not_eq_true, Roster.contains_iff]
    rintro ⟨p, found⟩
    exact (sound id p found).foreign rfl
  · refine (List.perm_ext_iff_of_nodup once (List.nodup_dedup _)).mpr fun q => ?_
    rw [List.mem_dedup, ← BootstrapPeer.lastOf_isSome_iff, isSome_eq_of_rel (rel q), List.mem_map,
      Option.isSome_iff_exists]
    constructor
    · rintro ⟨p, listed, rfl⟩
      exact ⟨p, (Roster.mem_list_iff own).mp listed⟩
    · rintro ⟨p, found⟩
      exact ⟨p, Roster.mem_list_of_get? found, own q p found⟩

end Node

namespace Start

/-- Registers peers in order, each at its time; those that are refused are left out. -/
def joinAll (s : Start) (entries : List (BootstrapPeer × Millis)) : Start :=
  entries.foldl (fun start e => start.join e.1 e.2) s

theorem joinAll_of_enroll {s : Start} {n : Node} {entries : List (BootstrapPeer × Millis)}
    (enrolled : s.node.enroll entries = .ok n) :
    s.joinAll entries = ⟨n, s.sources ++ entries.map (·.1.id), s.skipped⟩ := by
  induction entries generalizing s with
  | nil =>
      obtain rfl := Except.ok.inj enrolled
      rw [List.map_nil, List.append_nil]
      rfl
  | cons e rest ih =>
      unfold Node.enroll at enrolled
      rw [List.foldlM_cons] at enrolled
      cases added : s.node.addPeer e.1.introduction e.2 with
      | error refusal =>
          rw [added] at enrolled
          nomatch enrolled
      | ok next =>
          rw [added] at enrolled
          have joined : s.join e.1 e.2 = ⟨next, s.sources ++ [e.1.id], s.skipped⟩ := by
            unfold join
            rw [added]
          have others := ih (s := s.join e.1 e.2) (joined ▸ enrolled)
          rw [joined, List.append_assoc] at others
          rw [joinAll, List.foldl_cons, joined]
          exact others

/-- A new node registers all peers that no check refuses, and leaves none of them out. -/
theorem alone_joinAll (id : NodeId) (entries : List (BootstrapPeer × Millis))
    (fit : ∀ e ∈ entries, e.1.Fits id) :
    ∃ n, (Node.empty id).enroll entries = .ok n ∧ n.Acquainted id (entries.map (·.1)) ∧
      (alone id).joinAll entries = ⟨n, (entries.map (·.1)).map (·.id), []⟩ := by
  have enrolled := Node.enroll_of_fits (n := .empty id) fit
  refine ⟨_, enrolled, Node.acquainted_of_fits fit, ?_⟩
  rw [joinAll_of_enroll enrolled, List.map_map]
  rfl

end Start

namespace Settings

variable {s : Settings} {fallback : String}

theorem start_eq_joinAll (s : Settings) (fallback : String) (now : Millis) :
    s.start fallback now =
      (Start.alone (s.nodeIdOr fallback)).joinAll (s.bootstrap.map (·, now)) := by
  rw [Start.joinAll, List.foldl_map]
  rfl

theorem problem?_eq_none_iff : s.problem? fallback = none ↔
    s.nodeId.any Text.allBlank = false ∧ s.intervalSeconds ≠ 0 ∧ s.fanout ≠ 0 ∧
      s.timeoutMillis ≠ 0 ∧ (s.logFormat = "json" ∨ s.logFormat = "pretty") ∧
      ∀ p ∈ s.bootstrap, p.id ≠ s.nodeIdOr fallback := by
  unfold problem?
  simp [ite_eq_iff, or_iff_not_imp_left]

theorem fits_of_accepted (read : ∀ p ∈ s.bootstrap, ∃ text, BootstrapPeer.parse text = .ok p)
    (accepted : s.problem? fallback = none) : ∀ p ∈ s.bootstrap, p.Fits (s.nodeIdOr fallback) := by
  intro p member
  obtain ⟨text, parsed⟩ := read p member
  obtain ⟨named, addressed⟩ := BootstrapPeer.of_parse parsed
  obtain ⟨-, -, -, -, -, foreign⟩ := problem?_eq_none_iff.mp accepted
  exact ⟨foreign p member, named, addressed⟩

/-- The bootstrap peers of accepted settings, if they were read from texts, are all registered, in
order and whenever each of them is; the node then knows them and nobody else, and leaves none out. -/
theorem bootstrap_peers_registered
    (read : ∀ p ∈ s.bootstrap, ∃ text, BootstrapPeer.parse text = .ok p)
    (accepted : s.problem? fallback = none) :
    (∀ entries : List (BootstrapPeer × Millis), entries.map (·.1) = s.bootstrap →
      ∃ n, (Node.empty (s.nodeIdOr fallback)).enroll entries = .ok n ∧
        n.Acquainted (s.nodeIdOr fallback) s.bootstrap ∧
        (Start.alone (s.nodeIdOr fallback)).joinAll entries = ⟨n, s.bootstrap.map (·.id), []⟩) ∧
    ∀ now, ∃ n, s.start fallback now = ⟨n, s.bootstrap.map (·.id), []⟩ ∧
      n.Acquainted (s.nodeIdOr fallback) s.bootstrap := by
  have fits := fits_of_accepted read accepted
  constructor
  · intro entries listed
    have joined := Start.alone_joinAll (s.nodeIdOr fallback) entries fun e member =>
      fits e.1 (listed ▸ List.mem_map_of_mem member)
    rw [listed] at joined
    exact joined
  · intro now
    have listed : (s.bootstrap.map (·, now)).map (·.1) = s.bootstrap :=
      List.map_map.trans (List.map_id _)
    obtain ⟨n, -, acquainted, joined⟩ := Start.alone_joinAll (s.nodeIdOr fallback)
      (s.bootstrap.map (·, now)) fun e member =>
        fits e.1 (listed ▸ List.mem_map_of_mem (f := Prod.fst) member)
    rw [listed] at acquainted joined
    exact ⟨n, (start_eq_joinAll s fallback now).trans joined, acquainted⟩

/-- A node `n2` and a peer `n2 `, and a peer that is given twice, with blanks at the front of its last
address. -/
def spaced : Settings :=
  { standard with
    nodeId := some "n2"
    bootstrap := [⟨"n2 ", "x@h:1"⟩, ⟨"a b", "first"⟩, ⟨"a b", "\u00a0h\u2003:1"⟩] }

theorem spaced_peers_registered :
    (∀ p ∈ spaced.bootstrap, ∃ text, BootstrapPeer.parse text = .ok p) ∧
    spaced.problem? "node" = none ∧
    ∃ n, (Node.empty "n2").enroll
        [(⟨"n2 ", "x@h:1"⟩, 3), (⟨"a b", "first"⟩, 1), (⟨"a b", "\u00a0h\u2003:1"⟩, 2)] = .ok n ∧
      n.Acquainted "n2" spaced.bootstrap ∧
      (n.peers.get? "a b").map (·.address) = some "\u00a0h\u2003:1" := by
  have read : ∀ p ∈ spaced.bootstrap, ∃ text, BootstrapPeer.parse text = .ok p := by
    simp only [spaced, List.forall_mem_cons]
    exact ⟨⟨" n2 @x@h:1\n", by decide⟩, ⟨"a b@first", by decide⟩,
      ⟨"\u3000a b@\u00a0h\u2003:1\u3000", by decide⟩, by simp⟩
  have accepted : spaced.problem? "node" = none := by decide
  obtain ⟨n, enrolled, acquainted, -⟩ := (bootstrap_peers_registered read accepted).1
    [(⟨"n2 ", "x@h:1"⟩, 3), (⟨"a b", "first"⟩, 1), (⟨"a b", "\u00a0h\u2003:1"⟩, 2)] rfl
  have entry := acquainted.entries "a b"
  have last : BootstrapPeer.lastOf spaced.bootstrap "a b" = some ⟨"a b", "\u00a0h\u2003:1"⟩ := by
    decide
  rw [last] at entry
  refine ⟨read, accepted, n, enrolled, acquainted, ?_⟩
  generalize n.peers.get? "a b" = found at entry ⊢
  cases entry with
  | some entered => exact congrArg some entered.address

end Settings

end ThreatGossip

import Mathlib.Data.List.Perm.Basic
import ThreatGossip.Proofs.Json.Members
import ThreatGossip.Proofs.WireForms
/-!
The order of a message's members does not matter, and neither do further members. The kind of a
payload may stand before or behind the payload's own members, and what belongs to another kind is
passed over. So a message that comes back of its text also comes back of every text with the same
members in another order and others among them.
-/
namespace ThreatGossip

open Json (Document Format MemberText Name Record Tree nesting objectText spelled)

namespace Payload

/-- The names of a payload's own members, behind its type. -/
def fields : Payload → List String
  | delta .. => deltaParts.names
  | full _ | response _ => stateParts.names
  | request => []

theorem commutes_deltaParts : deltaParts.Commutes :=
  Record.commutes_fieldOr.and
    (Record.commutes_fieldOr.and Record.commutes_fieldOr Record.lawful_fieldOr)
    Record.lawful_field

theorem commutes_stateParts : stateParts.Commutes := Record.commutes_fieldOr

variable {room : Nat} {kept own extra : List (Name × Tree)}

/-- The parts of a payload are found in any order, with members of other names among them. -/
theorem parts_perm {α : Type} {r : Record α} (commutes : r.Commutes) (lawful : r.Lawful) {a : α}
    (found : parts r room own = some a) (perm : kept.Perm (own ++ extra))
    (others : ∀ e ∈ extra, (∃ name, e.1.text? = some name ∧ name ∉ r.names) ∧
      e.2.whole = true) :
    parts r room kept = some a := by
  obtain ⟨slots, gathered, finish⟩ := parts_eq_some_iff.mp found
  have whole : r.gather room r.empty (own ++ extra) = .ok slots := by
    rw [Record.gather_append, gathered]
    exact lawful.gather_others others slots
  exact parts_eq_some_iff.mpr ⟨slots, commutes.gather_perm perm.symm whole, finish⟩

/-- A payload is written as its type and members of its own. -/
theorem names_tail (p : Payload) : ∀ m ∈ p.members.tail, m.1 ∈ p.fields := by
  cases p with
  | delta threats rules metrics => exact lawful_deltaParts.writes _
  | full state => exact Record.lawful_field.writes _
  | request => exact nofun
  | response state => exact Record.lawful_field.writes _

theorem type_not_field (p : Payload) : "type" ∉ p.fields := by
  cases p with
  | delta threats rules metrics =>
      exact (by decide : "type" ∉ ["threat_delta", "rules_delta", "metrics_delta"])
  | full state | response state => exact (by decide : "type" ∉ ["full_state"])
  | request => exact List.not_mem_nil

theorem filter_type (p : Payload) :
    (spelled p.members).filter (·.1.text? == some "type") =
      [(.ofString "type", .string p.kind.name)] :=
  filter_spelled (fun m listed same => p.type_not_field (same ▸ p.names_tail m listed)) p.kind.name

/-- A payload is found among its members in any order, with members of other names among them. -/
theorem ofMembers?_perm {p : Payload} (found : ofMembers? room (spelled p.members) = some p)
    (perm : kept.Perm (spelled p.members ++ extra))
    (others : ∀ e ∈ extra, (∃ name, e.1.text? = some name ∧ name ≠ "type" ∧ name ∉ p.fields) ∧
      e.2.whole = true) :
    ofMembers? room kept = some p := by
  have none : extra.filter (·.1.text? == some "type") = [] := by
    refine List.filter_eq_nil_iff.mpr fun e listed => ?_
    obtain ⟨⟨name, named, different, -⟩, -⟩ := others e listed
    simpa [named] using different
  have type : kept.filter (·.1.text? == some "type") =
      [(.ofString "type", .string p.kind.name)] := by
    have filtered := perm.filter (·.1.text? == some "type")
    rw [List.filter_append, filter_type, none, List.append_nil] at filtered
    exact List.perm_singleton.mp filtered
  have apart : ∀ e ∈ extra, (∃ name, e.1.text? = some name ∧ name ∉ p.fields) ∧
      e.2.whole = true := fun e listed =>
    let ⟨⟨name, named, _, foreign⟩, whole⟩ := others e listed
    ⟨⟨name, named, foreign⟩, whole⟩
  unfold ofMembers? at found ⊢
  rw [filter_type] at found
  rw [type]
  simp only [kindOf?_name] at found ⊢
  cases p with
  | delta threats rules metrics =>
      obtain ⟨⟨threats', rules', metrics'⟩, read, same⟩ := Option.map_eq_some_iff.mp found
      exact Option.map_eq_some_iff.mpr ⟨_, parts_perm commutes_deltaParts lawful_deltaParts read
        perm apart, same⟩
  | full state | response state =>
      obtain ⟨state', read, same⟩ := Option.map_eq_some_iff.mp found
      exact Option.map_eq_some_iff.mpr ⟨_, parts_perm commutes_stateParts Record.lawful_field read
        perm apart, same⟩
  | request => rfl

end Payload

namespace Message

theorem Envelope.commutes_record : Envelope.record.Commutes :=
  (Record.commutes_fieldOr.and
    (Record.commutes_fieldOr.and
      (Record.commutes_fieldOr.and Record.commutes_fieldOr Record.lawful_field)
      Record.lawful_field)
    Record.lawful_field).imap

/-- The names that a message's own members may have: those of the envelope, the type, and those of
the payload. -/
def fields (m : Message) : List String := Envelope.record.names ++ "type" :: m.payload.fields

/-- A member of the envelope. -/
def outside (m : Name × Tree) : Bool :=
  m.1.text?.any fun name => Envelope.record.names.contains name

theorem outside_eq {m : Name × Tree} {name : String} (named : m.1.text? = some name) :
    outside m = decide (name ∈ Envelope.record.names) := by
  rw [outside, named, Option.any_some, List.contains_eq_mem]

variable {room : Nat}

/-- The envelope's members are read as they come, and all others are kept. -/
theorem gather_eq {slots last : Envelope.record.Slots} {ms : List (Name × Tree)}
    (read : Envelope.record.gather room slots (ms.filter outside) = .ok last)
    (kept : ∀ m ∈ ms, outside m = false →
      (∃ name, m.1.text? = some name) ∧ m.2.legible room = true) :
    gather room slots ms = .ok (last, ms.filter fun m => !outside m) := by
  induction ms generalizing slots with
  | nil => rw [Except.ok.inj read]; rfl
  | cons m ms ih =>
      obtain ⟨first, others⟩ := List.forall_mem_cons.mp kept
      cases own : outside m with
      | true =>
          rw [List.filter_cons_of_pos own] at read
          rw [List.filter_cons_of_neg (by simp [own])]
          obtain ⟨next, step, later⟩ := Record.gather_cons_eq_ok_iff.mp read
          cases step with
          | own named taken came =>
              rw [gather, named]
              dsimp only
              rw [taken]
              exact (congrArg (· >>= _) came).trans (ih later others)
          | other named passed _ =>
              rw [outside_eq named] at own
              exact absurd (of_decide_eq_true own) ((Envelope.lawful_record.reads _ _).mp passed)
      | false =>
          obtain ⟨⟨name, named⟩, legible⟩ := first own
          rw [List.filter_cons_of_neg (by simp [own])] at read
          rw [List.filter_cons_of_pos (by simp [own])]
          rw [outside_eq named] at own
          have passed := (Envelope.lawful_record.reads slots name).mpr (of_decide_eq_false own)
          rw [gather, named]
          dsimp only
          rw [passed]
          dsimp only
          rw [if_pos legible, ih read others]
          rfl

section Members

variable {m : Message} {ms extra : List (Name × Tree)}

theorem outside_own : ∀ n ∈ spelled (Envelope.record.members m.envelope), outside n = true := by
  intro n listed
  obtain ⟨e, inside, rfl⟩ := List.mem_map.mp listed
  rw [outside_eq (Name.text?_ofString e.1)]
  exact decide_eq_true (Envelope.lawful_record.writes m.envelope e inside)

theorem not_outside_payload : ∀ n ∈ spelled m.payload.members, outside n = false := by
  intro n listed
  obtain ⟨e, inside, rfl⟩ := List.mem_map.mp listed
  have apart : ∀ s ∈ ["type", "threat_delta", "rules_delta", "metrics_delta", "full_state"],
      s ∉ Envelope.record.names := by
    change ∀ s ∈ _, s ∉ ["from_node", "to_node", "timestamp", "version"]
    decide
  rw [outside_eq (Name.text?_ofString e.1)]
  exact decide_eq_false (apart e.1 (m.payload.names_members e inside))

/-- A name that a message's own members do not have, with a legible value. -/
def Passed (m : Message) (room : Nat) (e : Name × Tree) : Prop :=
  (∃ name, e.1.text? = some name ∧ name ∉ m.fields) ∧ e.2.legible room = true

/-- The envelope's members are those that are read as they come. -/
theorem filter_outside (passed : ∀ e ∈ extra, m.Passed room e) :
    (spelled (Envelope.record.members m.envelope ++ m.payload.members) ++ extra).filter outside =
        spelled (Envelope.record.members m.envelope) ∧
      ((spelled (Envelope.record.members m.envelope ++ m.payload.members) ++ extra).filter
        fun n => !outside n) = spelled m.payload.members ++ extra := by
  have inside : ∀ n ∈ spelled m.payload.members ++ extra, outside n = false := by
    intro n listed
    rcases List.mem_append.mp listed with payload | further
    · exact not_outside_payload n payload
    · obtain ⟨⟨name, named, other⟩, -⟩ := passed n further
      rw [outside_eq named]
      exact decide_eq_false fun own => other (List.mem_append_left _ own)
  rw [Json.spelled_append, List.append_assoc]
  constructor
  · have none : (spelled m.payload.members ++ extra).filter outside = [] :=
      List.filter_eq_nil_iff.mpr fun n listed => by simp [inside n listed]
    rw [List.filter_append, List.filter_eq_self.mpr outside_own, none, List.append_nil]
  · have none : (spelled (Envelope.record.members m.envelope)).filter (fun n => !outside n) = [] :=
      List.filter_eq_nil_iff.mpr fun n listed => by simp [outside_own n listed]
    have all : (spelled m.payload.members ++ extra).filter (fun n => !outside n) =
        spelled m.payload.members ++ extra :=
      List.filter_eq_self.mpr fun n listed => by simp [inside n listed]
    rw [List.filter_append, none, all, List.nil_append]

/-- A message that comes back is read of its members in any order, with others among them. -/
theorem read_rearranged (back : Message.format.Returns (room + 1) m m)
    (perm : ms.Perm (spelled (Envelope.record.members m.envelope ++ m.payload.members) ++ extra))
    (passed : ∀ e ∈ extra, m.Passed room e) :
    Message.format.read (room + 1) (.object ms true) = .ok m := by
  obtain ⟨⟨slots, gathered, finish⟩, clear, found⟩ := returns_iff.mp back
  obtain ⟨own, others⟩ := filter_outside passed
  -- the envelope's members and the kept ones are each rearranged among themselves
  have envelope := perm.filter outside
  have kept := perm.filter fun n => !outside n
  rw [own] at envelope
  rw [others] at kept
  have read := gather_eq (Envelope.commutes_record.gather_perm envelope.symm gathered)
    fun n listed inside => ?legible
  case legible =>
    have member := kept.mem_iff.mp (List.mem_filter.mpr ⟨listed, by rw [inside]; rfl⟩)
    rcases List.mem_append.mp member with written | further
    · obtain ⟨e, part, rfl⟩ := List.mem_map.mp written
      exact ⟨⟨e.1, rfl⟩, List.all_eq_true.mp clear e part⟩
    · obtain ⟨⟨name, named, -⟩, legible⟩ := passed n further
      exact ⟨⟨name, named⟩, legible⟩
  have payload := Payload.ofMembers?_perm found kept fun e listed => ?part
  case part =>
    obtain ⟨⟨name, named, other⟩, legible⟩ := passed e listed
    have apart := fun behind => other (List.mem_append_right _ behind)
    exact ⟨⟨name, named, fun type => apart (type ▸ List.mem_cons_self), fun field =>
      apart (List.mem_cons_of_mem _ field)⟩, Tree.whole_of_legible legible⟩
  simp only [Message.format, read, bind, Except.bind, Bool.not_true, Bool.false_eq_true, if_false,
    finish, payload]
  rfl

end Members

/-- The members of a message's text, in the order they are written in. -/
def texts (m : Message) : List MemberText :=
  (Envelope.record.members m.envelope ++ m.payload.members).map MemberText.written

/-- A further member: a name that is none of the message's own, and a value that can be read. -/
structure Further (m : Message) (e : MemberText) : Prop where
  name : ∃ name, Format.string.decode e.name = .ok name ∧ name ∉ m.fields
  value : ∃ d, Format.document.decode e.value = .ok d

theorem encode_eq (m : Message) : Message.format.encode m = objectText m.texts :=
  MemberText.text_record _

theorem forall₂_texts (m : Message) : List.Forall₂ MemberText.Reads m.texts
    (spelled (Envelope.record.members m.envelope ++ m.payload.members)) :=
  List.forall₂_map_left_iff.mpr <| List.forall₂_map_right_iff.mpr <|
    List.forall₂_same.mpr fun n listed => MemberText.reads_written (m.plain_members n listed)

theorem exists_further {m : Message} {extra : List MemberText}
    (further : ∀ e ∈ extra, m.Further e) :
    ∃ ns, List.Forall₂ MemberText.Reads extra ns ∧ ∀ n ∈ ns, m.Passed Json.maxDepth n := by
  induction extra with
  | nil => exact ⟨[], .nil, nofun⟩
  | cons e extra ih =>
      obtain ⟨first, others⟩ := List.forall_mem_cons.mp further
      obtain ⟨⟨name, named, other⟩, d, value⟩ := first
      obtain ⟨n, reads, text, legible⟩ := MemberText.reads_of_decode named value
      obtain ⟨ns, read, each⟩ := ih others
      exact ⟨n :: ns, .cons reads read,
        List.forall_mem_cons.mpr ⟨⟨⟨name, text, other⟩, legible⟩, each⟩⟩

end Message

end ThreatGossip

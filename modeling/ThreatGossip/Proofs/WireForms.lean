import ThreatGossip.Node
import ThreatGossip.Proofs.Json.Replicas
import ThreatGossip.Proofs.Json.RoundTrips
/-!
Messages, acknowledgments and snapshots come back of their texts. Their documents must be portable
and none of them a live `null`, which would be read as a deletion; then a text that nests at most
127 deep is read as exactly the value that was written, and a deeper one is not read at all. Whatever
its documents are, a message that is read at all comes from the same sender, goes to the same
recipient and brings the same clocks.
-/
namespace ThreatGossip

open Json (Document Format Name Record Tree nesting)
open Json.Record (field fieldOr)

section Documents

variable (P : Document → Prop)

/-- What holds of every document that is stored live. -/
def Registers.EachDocument (rs : Registers Document) : Prop :=
  ∀ e ∈ rs.entries, ∀ d, e.2.value = some d → P d

def Snapshot.EachDocument (s : Snapshot) : Prop := s.threats.registers.EachDocument P

/-- A message carries documents in its delta only; a full state travels as a text. -/
def Message.EachDocument (m : Message) : Prop :=
  match m.payload with
  | .delta threats _ _ => threats.changes.EachDocument P
  | .full _ | .request | .response _ => True

def Acknowledgment.EachDocument (a : Acknowledgment) : Prop :=
  ∀ m, a.reply = some m → m.EachDocument P

end Documents

/-- A document that a register can carry through a text. -/
def Carried (d : Document) : Prop := d.Portable ∧ d.isNull = false

theorem Clock.roundTrips_format : Clock.format.RoundTrips fun _ => True :=
  (Format.roundTrips_count.map.imap fun _ => rfl).imp fun _ _ _ _ => trivial

section Registers

variable {α : Type} {f : Format α} {fit : α → Prop}

theorem roundTrips_optionalValue (h : f.RoundTrips fit) (solid : ∀ a, fit a → f.write a ≠ .null) :
    (optionalValue f).RoundTrips fun o => ∀ a, o = some a → fit a :=
  Record.roundTrips_fieldOr (h.nullable solid) nofun

theorem Register.roundTrips_recordOf {value : Record α} (h : value.RoundTrips fit)
    (lawful : value.Lawful) (names : value.names = ["value"]) :
    (Register.recordOf value).RoundTrips fun r => fit r.value := by
  have signed := Clock.roundTrips_format.field_and "clock"
    (Record.roundTrips_field "writer" Format.roundTrips_string) Record.lawful_field
    (by decide)
  have stamped := Format.roundTrips_count.field_and "timestamp" signed
    (Record.lawful_and Record.lawful_field Record.lawful_field) (by decide)
  have whole := h.and stamped lawful
    (Record.lawful_and Record.lawful_field
      (Record.lawful_and Record.lawful_field Record.lawful_field))
    (by rw [names]; decide)
  exact (whole.imap fun _ => rfl).imp fun r ok => ⟨ok, trivial, trivial, trivial⟩

theorem Register.roundTrips_documents :
    (Register.recordOf (optionalValue .document)).format.RoundTrips fun r =>
      ∀ d, r.value = some d → Carried d := by
  refine (Register.roundTrips_recordOf (roundTrips_optionalValue
    (Format.roundTrips_document.imp fun _ (ok : Carried _) => ok.1) fun d ok null => ?_)
      Record.lawful_fieldOr rfl).format
  exact Bool.false_ne_true (ok.2.symm.trans (Document.isNull_iff.mpr null))

theorem Registers.roundTrips_documents :
    (Registers.format .document).RoundTrips (Registers.EachDocument Carried) :=
  Register.roundTrips_documents.map

end Registers

section Snapshots

theorem Delta.roundTrips_format :
    (Delta.format .document).RoundTrips fun d => d.changes.EachDocument Carried := by
  have parts := Format.roundTrips_string.field_and "node_id"
    (Format.roundTrips_count.field_and "timestamp"
      (Record.roundTrips_field "changes" Registers.roundTrips_documents)
      Record.lawful_field (by decide))
    (Record.lawful_and Record.lawful_field Record.lawful_field) (by decide)
  exact (parts.imap fun _ => rfl).format.imp fun _ ok => ⟨trivial, trivial, ok⟩

/-- The registers of a delta come back under their keys with their clocks. -/
theorem Delta.clocks_of_returns {room : Nat} {d d' : Delta Document}
    (h : (Delta.format .document).Returns (room + 4) d d') (k : String) :
    (d'.changes.get? k).map Register.clock = (d.changes.get? k).map Register.clock := by
  obtain ⟨⟨source, timestamp, changes⟩, back, rfl⟩ :=
    Record.returns_imap.mp (Record.returns_format.mp h)
  rw [Record.returns_field_and (Record.lawful_and Record.lawful_field Record.lawful_field)
      (show "node_id" ∉ ["timestamp", "changes"] by decide),
    Record.returns_field_and Record.lawful_field (show "timestamp" ∉ ["changes"] by decide),
    Record.returns_field] at back
  exact Registers.returns_format back.2.2 k

theorem RegisterMap.roundTrips_format :
    (RegisterMap.format .document).RoundTrips fun m => m.registers.EachDocument Carried := by
  have parts := Format.roundTrips_string.field_and "node"
    (Clock.roundTrips_format.field_and "version"
      (Record.roundTrips_field "entries" Registers.roundTrips_documents)
      Record.lawful_field (by decide))
    (Record.lawful_and Record.lawful_field Record.lawful_field) (by decide)
  exact (parts.imap fun _ => rfl).format.imp fun _ ok => ⟨trivial, trivial, ok⟩

theorem GrowCounter.roundTrips_format : GrowCounter.format.RoundTrips fun _ => True := by
  have parts := Format.roundTrips_string.field_and "node"
    (Record.roundTrips_field "counts" Format.roundTrips_count.map) Record.lawful_field
    (by decide)
  exact (parts.imap fun _ => rfl).format.imp fun _ _ => ⟨trivial, fun _ _ => trivial⟩

theorem Counter.roundTrips_format : Counter.format.RoundTrips fun _ => True := by
  have parts := GrowCounter.roundTrips_format.field_and "positive"
    (Record.roundTrips_field "negative" GrowCounter.roundTrips_format)
    Record.lawful_field (by decide)
  exact (parts.imap fun _ => rfl).format.imp fun _ _ => ⟨trivial, trivial⟩

theorem GrowSet.roundTrips_format : GrowSet.format.RoundTrips fun _ => True :=
  ((Record.roundTrips_field "items" Format.roundTrips_set).imap fun _ => rfl).format

/-- A set comes back when the tags of both its sides do. -/
theorem ObservedSet.roundTrips_formatOf {α : Type} [Ord α]
    {tags : Format (SortedMap α (SortedSet String))} {fit : SortedMap α (SortedSet String) → Prop}
    (h : tags.RoundTrips fit) :
    (ObservedSet.formatOf tags).RoundTrips fun s => fit s.added ∧ fit s.removed := by
  have parts := h.field_and "additions" (Record.roundTrips_field "removals" h) Record.lawful_field
    (show "additions" ∉ ["removals"] by decide)
  exact (parts.imap fun _ => rfl).format

theorem ObservedSet.roundTrips_format : ObservedSet.format.RoundTrips fun _ => True :=
  (roundTrips_formatOf Format.roundTrips_set.map).imp fun _ _ =>
    ⟨fun _ _ => trivial, fun _ _ => trivial⟩

theorem Snapshot.roundTrips_format :
    Snapshot.format.RoundTrips (Snapshot.EachDocument Carried) := by
  have parts := RegisterMap.roundTrips_format.field_and "threat_intel"
    (ObservedSet.roundTrips_format.field_and "rules"
      (Record.roundTrips_field "metrics" Counter.roundTrips_format)
      Record.lawful_field (by decide))
    (Record.lawful_and Record.lawful_field Record.lawful_field) (by decide)
  exact (parts.imap fun _ => rfl).format.imp fun _ ok => ⟨ok, trivial, trivial⟩

end Snapshots

namespace Payload

variable {α : Type} {f : Format α}

/-- A part that may be missing comes back, and so does its absence. -/
theorem roundTrips_optionalPart (name : String) (h : f.RoundTrips fun _ => True)
    (solid : ∀ a, f.write a ≠ .null) : (optionalPart name f).RoundTrips fun _ => True := by
  refine (Record.roundTrips_fieldOr (h.nullable fun a _ => solid a) fun o hidden => ?_).imp
    fun _ _ _ _ => trivial
  rw [Option.isNone_iff_eq_none.mp hidden]

theorem lawful_deltaParts : deltaParts.Lawful :=
  Record.lawful_and Record.lawful_field (Record.lawful_and Record.lawful_fieldOr
    Record.lawful_fieldOr)

theorem roundTrips_deltaParts :
    deltaParts.RoundTrips fun (threats, _, _) => threats.changes.EachDocument Carried := by
  have rules := roundTrips_optionalPart "rules_delta" ObservedSet.roundTrips_format nofun
  have metrics := roundTrips_optionalPart "metrics_delta" Counter.roundTrips_format nofun
  have parts := Delta.roundTrips_format.field_and "threat_delta"
    (rules.and metrics Record.lawful_fieldOr Record.lawful_fieldOr
      (show ∀ n ∈ ["metrics_delta"], n ∉ ["rules_delta"] by decide))
    (Record.lawful_and Record.lawful_fieldOr Record.lawful_fieldOr)
    (show "threat_delta" ∉ ["rules_delta", "metrics_delta"] by decide)
  exact parts.imp fun _ ok => ⟨ok, trivial, trivial⟩

theorem roundTrips_stateParts : stateParts.RoundTrips fun _ => True :=
  Record.roundTrips_field "full_state" Format.roundTrips_string

/-- Parts are found where all members are read and nothing is missing. -/
theorem parts_eq_some_iff {r : Record α} {room : Nat} {kept : List (Name × Tree)} {a : α} :
    parts r room kept = some a ↔
      ∃ slots, r.gather room r.empty kept = .ok slots ∧ r.finish .object slots = .ok a := by
  unfold parts
  cases r.gather room r.empty kept with
  | error e => simp
  | ok slots => cases finished : r.finish .object slots <;> simp [finished, Except.toOption]

/-- The parts of a payload are read behind its type as they are without it. -/
theorem parts_typed_iff {r : Record α} (lawful : r.Lawful) (other : "type" ∉ r.names) {a b : α}
    {room : Nat} {kind : String} :
    parts r room (Json.spelled (("type", .string kind) :: r.members a)) = some b ↔
      r.Returns room a b := by
  have passed : r.gather room r.empty (Json.spelled (("type", .string kind) :: r.members a)) =
      r.gather room r.empty (Json.spelled (r.members a)) := by
    refine (Record.gather_cons r room r.empty "type" _ _).trans ?_
    rw [(lawful.reads r.empty "type").mpr other]
    rfl
  rw [parts_eq_some_iff, passed, Record.Returns]

/-- The parts of a payload are found behind its type. -/
theorem parts_spelled {r : Record α} {fit : α → Prop} (h : r.RoundTrips fit) (lawful : r.Lawful)
    (other : "type" ∉ r.names) {a : α} (ok : fit a) {room : Nat}
    (fits : ∀ m ∈ r.members a, m.2.depth ≤ room) (kind : String) :
    parts r room (Json.spelled (("type", .string kind) :: r.members a)) = some a :=
  (parts_typed_iff lawful other).mpr ((h.returns room a a ok).mpr ⟨rfl, fits⟩)

/-- One member is the type of a payload, whatever its parts are. -/
theorem filter_spelled {ms : List (String × Tree)} (others : ∀ m ∈ ms, m.1 ≠ "type")
    (kind : String) :
    (Json.spelled (("type", .string kind) :: ms)).filter (·.1.text? == some "type") =
      [(.ofString "type", .string kind)] := by
  have none : (Json.spelled ms).filter (·.1.text? == some "type") = [] := by
    refine List.filter_eq_nil_iff.mpr fun m member => ?_
    obtain ⟨n, inside, rfl⟩ := List.mem_map.mp member
    simpa using others n inside
  change ((.ofString "type", .string kind) :: Json.spelled ms).filter _ = _
  rw [List.filter_cons_of_pos (by rfl), none]

theorem kindOf?_name (k : MessageKind) : kindOf? (.string k.name) = some k := by
  cases k <;> rfl

/-- The parts of a payload are read by the kind that stands before them. -/
theorem ofMembers?_typed {ms : List (String × Tree)} (others : ∀ m ∈ ms, m.1 ≠ "type")
    (room : Nat) (k : MessageKind) :
    ofMembers? room (Json.spelled (("type", .string k.name) :: ms)) =
      let kept := Json.spelled (("type", .string k.name) :: ms)
      match k with
      | .delta => (parts deltaParts room kept).map fun (threats, rules, metrics) =>
        .delta threats rules metrics
      | .full => (parts stateParts room kept).map .full
      | .request => some .request
      | .response => (parts stateParts room kept).map .response := by
  unfold ofMembers?
  rw [filter_spelled others]
  simp only [kindOf?_name]
  cases k <;> rfl

/-- A payload is found among its own members. -/
theorem ofMembers?_spelled {p : Payload} {room : Nat}
    (ok : ∀ threats rules metrics, p = .delta threats rules metrics →
      threats.changes.EachDocument Carried)
    (fits : ∀ m ∈ p.members, m.2.depth ≤ room) :
    ofMembers? room (Json.spelled p.members) = some p := by
  have inside : ∀ m ∈ p.members.tail, m.2.depth ≤ room := fun m member =>
    fits m (List.mem_of_mem_tail member)
  cases p with
  | delta threats rules metrics =>
      have read := parts_spelled roundTrips_deltaParts lawful_deltaParts
        (show "type" ∉ ["threat_delta", "rules_delta", "metrics_delta"] by decide)
        (ok threats rules metrics rfl) inside "delta"
      refine (ofMembers?_typed (fun m member => ?_) room .delta).trans ?_
      · exact fun same => absurd (lawful_deltaParts.writes _ m member) (by rw [same]; decide)
      · exact congrArg (Option.map _) read
  | full state =>
      have read := parts_spelled roundTrips_stateParts Record.lawful_field
        (show "type" ∉ ["full_state"] by decide) trivial inside "full"
      refine (ofMembers?_typed (fun m member => ?_) room .full).trans ?_
      · exact fun same => absurd (Record.lawful_field.writes _ m member) (by rw [same]; decide)
      · exact congrArg (Option.map _) read
  | request => rfl
  | response state =>
      have read := parts_spelled roundTrips_stateParts Record.lawful_field
        (show "type" ∉ ["full_state"] by decide) trivial inside "response"
      refine (ofMembers?_typed (fun m member => ?_) room .response).trans ?_
      · exact fun same => absurd (Record.lawful_field.writes _ m member) (by rw [same]; decide)
      · exact congrArg (Option.map _) read

/-- Everything but the documents of a delta is written as it is read. -/
theorem stable_members {p : Payload}
    (ok : ∀ threats rules metrics, p = .delta threats rules metrics →
      threats.changes.EachDocument Carried) : ∀ m ∈ p.members, m.2.reread = m.2 := by
  intro m member
  rcases List.mem_cons.mp member with rfl | part
  · rfl
  · cases p with
    | delta threats rules metrics =>
        exact roundTrips_deltaParts.stable _ (ok threats rules metrics rfl) m part
    | full state => exact roundTrips_stateParts.stable state trivial m part
    | request => contradiction
    | response state => exact roundTrips_stateParts.stable state trivial m part

theorem names_members (p : Payload) : ∀ m ∈ p.members,
    m.1 ∈ ["type", "threat_delta", "rules_delta", "metrics_delta", "full_state"] := by
  intro m member
  rcases List.mem_cons.mp member with rfl | part
  · exact List.mem_cons_self
  · cases p with
    | delta threats rules metrics =>
        have name : m.1 ∈ ["threat_delta", "rules_delta", "metrics_delta"] :=
          lawful_deltaParts.writes _ m part
        exact List.mem_cons_of_mem _ (List.mem_append_left ["full_state"] name)
    | request => contradiction
    | full state | response state =>
        have name : m.1 ∈ ["full_state"] := Record.lawful_field.writes _ m part
        rw [List.mem_singleton.mp name]
        decide

end Payload

namespace Message

theorem Envelope.lawful_record : Envelope.record.Lawful :=
  (Record.lawful_and Record.lawful_field <| Record.lawful_and Record.lawful_field <|
    Record.lawful_and Record.lawful_field Record.lawful_fieldOr).imap

theorem Envelope.roundTrips_record : Envelope.record.RoundTrips fun _ => True := by
  have version : (fieldOr "version" Clock.format (fun _ => some .empty)
      (fun _ => false)).RoundTrips fun _ => True :=
    Record.roundTrips_fieldOr Clock.roundTrips_format nofun
  have stamped := Format.roundTrips_count.field_and "timestamp" version
    Record.lawful_fieldOr (show "timestamp" ∉ ["version"] by decide)
  have addressed := Format.roundTrips_string.field_and "to_node" stamped
    (Record.lawful_and Record.lawful_field Record.lawful_fieldOr)
    (show "to_node" ∉ ["timestamp", "version"] by decide)
  have whole := Format.roundTrips_string.field_and "from_node" addressed
    (Record.lawful_and Record.lawful_field
      (Record.lawful_and Record.lawful_field Record.lawful_fieldOr))
    (show "from_node" ∉ ["to_node", "timestamp", "version"] by decide)
  exact (whole.imap fun _ => rfl).imp fun _ _ => ⟨trivial, trivial, trivial, trivial⟩

section Gathering

variable {room : Nat} {slots : Envelope.record.Slots} {ms : List (String × Tree)}

theorem gather_cons (name : String) (t : Tree) (rest : List (Name × Tree)) :
    gather room slots ((.ofString name, t) :: rest) =
      match Envelope.record.take? slots name with
      | some read => read room t >>= fun slots => gather room slots rest
      | none =>
        if t.legible room then (gather room slots rest).map fun (slots, kept) =>
          (slots, (.ofString name, t) :: kept)
        else .error .malformed := by
  rw [gather]
  cases gather room slots rest <;> rfl

/-- The envelope's members are read as they come. -/
theorem gather_own (own : ∀ m ∈ ms, m.1 ∈ Envelope.record.names) (rest : List (Name × Tree)) :
    gather room slots (Json.spelled ms ++ rest) =
      Envelope.record.gather room slots (Json.spelled ms) >>= fun slots =>
        gather room slots rest := by
  induction ms generalizing slots with
  | nil => rfl
  | cons m ms ih =>
      obtain ⟨first, others⟩ := List.forall_mem_cons.mp own
      change gather room slots ((.ofString m.1, m.2.reread) :: (Json.spelled ms ++ rest)) =
        Envelope.record.gather room slots ((.ofString m.1, m.2.reread) :: Json.spelled ms) >>= _
      rw [gather_cons, Record.gather_cons]
      cases taken : Envelope.record.take? slots m.1 with
      | none => exact absurd first ((Envelope.lawful_record.reads slots m.1).mp taken)
      | some read =>
          dsimp only
          cases read room m.2.reread with
          | error e => rfl
          | ok next => exact ih others

/-- All other members are kept when they are legible. -/
theorem gather_others (others : ∀ m ∈ ms, m.1 ∉ Envelope.record.names) :
    gather room slots (Json.spelled ms) =
      if ms.all fun m => m.2.reread.legible room then .ok (slots, Json.spelled ms)
      else .error .malformed := by
  induction ms with
  | nil => rfl
  | cons m ms ih =>
      obtain ⟨first, rest⟩ := List.forall_mem_cons.mp others
      change gather room slots ((.ofString m.1, m.2.reread) :: Json.spelled ms) = _
      rw [gather_cons, List.all_cons, (Envelope.lawful_record.reads slots m.1).mpr first, ih rest]
      cases m.2.reread.legible room
      · rfl
      · cases ms.all fun m => m.2.reread.legible room <;> rfl

end Gathering

/-- A message comes back of what its envelope and its payload come back of. -/
theorem read_spelled (m : Message) (room : Nat) :
    Message.format.read (room + 1) (Message.format.write m).reread =
      Envelope.record.gather room Envelope.record.empty
        (Json.spelled (Envelope.record.members m.envelope)) >>= fun slots =>
        if m.payload.members.all fun m => m.2.reread.legible room then
          Envelope.record.finish .object slots >>= fun e =>
            match Payload.ofMembers? room (Json.spelled m.payload.members) with
            | some payload => .ok ⟨e.sender, e.recipient, e.timestamp, e.version, payload⟩
            | none => .error .misshapen
        else .error .malformed := by
  have others : ∀ n ∈ m.payload.members, n.1 ∉ Envelope.record.names := fun n member own => by
    have apart : ∀ s ∈ ["type", "threat_delta", "rules_delta", "metrics_delta", "full_state"],
        s ∉ ["from_node", "to_node", "timestamp", "version"] := by decide
    exact apart n.1 (m.payload.names_members n member) own
  simp only [Message.format, Json.reread_record]
  rw [Json.spelled_append, gather_own (Envelope.lawful_record.writes m.envelope)]
  cases Envelope.record.gather room Envelope.record.empty
      (Json.spelled (Envelope.record.members m.envelope)) with
  | error e => rfl
  | ok slots =>
      change (gather room slots (Json.spelled m.payload.members) >>= _) = _
      rw [gather_others others]
      split <;> rfl

/-- What comes back of a message: its envelope, and its payload if all of that is legible. -/
theorem returns_iff {m m' : Message} {room : Nat} :
    Message.format.Returns (room + 1) m m' ↔
      Envelope.record.Returns room m.envelope m'.envelope ∧
        (m.payload.members.all fun m => m.2.reread.legible room) = true ∧
        Payload.ofMembers? room (Json.spelled m.payload.members) = some m'.payload := by
  rw [Format.Returns, m.read_spelled room]
  constructor
  · intro came
    obtain ⟨slots, read, rest⟩ := Json.bind_eq_ok_iff.mp came
    split at rest
    next clear =>
      obtain ⟨e, finish, ending⟩ := Json.bind_eq_ok_iff.mp rest
      split at ending
      next payload found =>
        obtain rfl := Except.ok.inj ending
        exact ⟨⟨slots, read, finish⟩, clear, found⟩
      next => contradiction
    next => contradiction
  · rintro ⟨⟨slots, read, finish⟩, clear, found⟩
    simp only [read, bind, Except.bind, if_pos clear, finish, found]
    rfl

theorem roundTrips_format : Message.format.RoundTrips (Message.EachDocument Carried) := by
  have delta {m : Message} (ok : m.EachDocument Carried) : ∀ threats rules metrics,
      m.payload = .delta threats rules metrics → threats.changes.EachDocument Carried := by
    intro threats rules metrics same
    rw [EachDocument, same] at ok
    exact ok
  have stable (m : Message) (ok : m.EachDocument Carried) :
      (Message.format.write m).reread = Message.format.write m := by
    refine Tree.reread_record_eq_self fun n member => ?_
    rcases List.mem_append.mp member with outside | inside
    · exact Envelope.roundTrips_record.stable m.envelope trivial n outside
    · exact Payload.stable_members (delta ok) n inside
  refine ⟨stable, fun room m n ok => ?_⟩
  cases room with
  | zero =>
      rw [Format.Returns, stable m ok]
      exact iff_of_false (fun came => by cases came)
        fun both => Tree.not_depth_record_le_zero both.2
  | succ room =>
      have legible : (m.payload.members.all fun n => n.2.reread.legible room) = true ↔
          ∀ n ∈ m.payload.members, n.2.depth ≤ room := by
        rw [List.all_eq_true]
        refine forall₂_congr fun n member => ?_
        rw [Payload.stable_members (delta ok) n member,
          (m.payload.plain_members n member).legible_iff]
      rw [returns_iff, legible, Envelope.roundTrips_record.returns room m.envelope _ trivial]
      change _ ↔ n = m ∧
        (Tree.record (Envelope.record.members m.envelope ++ m.payload.members)).depth ≤ room + 1
      rw [Tree.depth_record_le, List.forall_mem_append]
      constructor
      · rintro ⟨⟨envelope, outside⟩, inside, found⟩
        rw [Payload.ofMembers?_spelled (delta ok) inside] at found
        have payload := Option.some.inj found
        cases m
        cases n
        cases envelope
        cases payload
        exact ⟨rfl, outside, inside⟩
      · rintro ⟨rfl, outside, inside⟩
        exact ⟨⟨rfl, outside⟩, inside, Payload.ofMembers?_spelled (delta ok) inside⟩

/-- Whatever becomes of its documents, a message that is read has the envelope that was written. -/
theorem envelope_of_decode {m m' : Message}
    (read : Message.format.decode (Message.format.encode m) = .ok m') :
    m'.envelope = m.envelope := by
  have back := (Format.decode_encode Message.writesPlain_format m m').mp read
  exact ((Envelope.roundTrips_record.returns 126 _ _ trivial).mp (returns_iff.mp back).1).1

/-- A delta that is read brings registers under the same keys with the same clocks. -/
theorem delta_of_decode {m m' : Message} {threats : Delta Document}
    {rules : Option (ObservedSet String)} {metrics : Option Counter}
    (read : Message.format.decode (Message.format.encode m) = .ok m')
    (payload : m.payload = .delta threats rules metrics) :
    ∃ threats' rules' metrics', m'.payload = .delta threats' rules' metrics' ∧
      ∀ k, (threats'.changes.get? k).map Register.clock =
        (threats.changes.get? k).map Register.clock := by
  have back := (Format.decode_encode Message.writesPlain_format m m').mp read
  obtain ⟨-, -, found⟩ := returns_iff.mp back
  rw [payload] at found
  have typed := @Payload.ofMembers?_typed (Payload.deltaParts.members (threats, rules, metrics))
    (fun m member same => absurd (Payload.lawful_deltaParts.writes _ m member)
      (by rw [same]; decide)) 126 .delta
  obtain ⟨⟨threats', rules', metrics'⟩, parts, same⟩ :=
    Option.map_eq_some_iff.mp (typed.symm.trans found)
  refine ⟨threats', rules', metrics', same.symm, ?_⟩
  have parts := (Payload.parts_typed_iff Payload.lawful_deltaParts (by decide)).mp parts
  have others : ((Payload.optionalPart "rules_delta" ObservedSet.format).and
      (Payload.optionalPart "metrics_delta" Counter.format)).Lawful :=
    Record.lawful_and Record.lawful_fieldOr Record.lawful_fieldOr
  exact Delta.clocks_of_returns ((Record.returns_field_and others (by decide)).mp parts).1

end Message

theorem Acknowledgment.roundTrips_format :
    Acknowledgment.format.RoundTrips (Acknowledgment.EachDocument Carried) := by
  have version : (fieldOr "version" Clock.format (fun _ => some .empty)
      (fun _ => false)).RoundTrips fun _ => True :=
    Record.roundTrips_fieldOr Clock.roundTrips_format nofun
  have reply : (fieldOr "reply" Message.format.nullable (fun _ => some none)
      Option.isNone).RoundTrips fun o => ∀ m, o = some m → m.EachDocument Carried := by
    refine Record.roundTrips_fieldOr (Message.roundTrips_format.nullable nofun) fun o silent => ?_
    rw [Option.isNone_iff_eq_none.mp silent]
  have parts := Format.roundTrips_string.field_and "status"
    (version.and reply Record.lawful_fieldOr Record.lawful_fieldOr
      (show ∀ n ∈ ["reply"], n ∉ ["version"] by decide))
    (Record.lawful_and Record.lawful_fieldOr Record.lawful_fieldOr)
    (show "status" ∉ ["version", "reply"] by decide)
  exact (parts.imap fun _ => rfl).format.imp fun _ ok => ⟨trivial, trivial, ok⟩

section Conditions

variable {P Q : Document → Prop}

theorem Registers.EachDocument.imp {rs : Registers Document} (h : rs.EachDocument P)
    (weaker : ∀ d, P d → Q d) : rs.EachDocument Q :=
  fun e member d live => weaker d (h e member d live)

theorem Message.EachDocument.imp {m : Message} (h : m.EachDocument P)
    (weaker : ∀ d, P d → Q d) : m.EachDocument Q := by
  unfold EachDocument at h ⊢
  split
  next payload =>
    rw [payload] at h
    exact Registers.EachDocument.imp h weaker
  all_goals trivial

end Conditions

/-- A full state is read back from a message that brings it, where its text does not nest too
deep. -/
theorem Node.snapshot_of_fullState {n : Node} (ok : n.snapshot.EachDocument Carried)
    (shallow : nesting n.fullState ≤ Json.maxDepth) :
    Snapshot.format.decode n.fullState = .ok n.snapshot :=
  (Snapshot.roundTrips_format.decode_encode Snapshot.writesPlain_format ok _).mpr ⟨rfl, shallow⟩

/-- Every message, every acknowledgment and every snapshot whose documents hold no number but
integers of the 64-bit ranges, and no live `null`, is decoded from its text as it was, provided the
text nests fewer than 128 levels; and a full state that is sent or answered with is the snapshot of
the node that wrote it. -/
theorem wire_forms_come_back :
    (∀ m : Message, (m.EachDocument fun d => d.tree.Integral ∧ d.isNull = false) →
      nesting (Message.format.encode m) < 128 →
        Message.format.decode (Message.format.encode m) = .ok m) ∧
    (∀ a : Acknowledgment, (a.EachDocument fun d => d.tree.Integral ∧ d.isNull = false) →
      nesting (Acknowledgment.format.encode a) < 128 →
        Acknowledgment.format.decode (Acknowledgment.format.encode a) = .ok a) ∧
    (∀ s : Snapshot, (s.EachDocument fun d => d.tree.Integral ∧ d.isNull = false) →
      nesting (Snapshot.format.encode s) < 128 →
        Snapshot.format.decode (Snapshot.format.encode s) = .ok s) ∧
    (∀ n : Node, (n.snapshot.EachDocument fun d => d.tree.Integral ∧ d.isNull = false) →
      nesting n.fullState < 128 → ∀ (peer : NodeId) (now : Millis),
        (n.fullMessage peer now).snapshot = .ok n.snapshot ∧
        (n.responseMessage peer now).snapshot = .ok n.snapshot) := by
  have carried (d : Document) (ok : d.tree.Integral ∧ d.isNull = false) : Carried d :=
    ⟨Document.portable_of_integral ok.1, ok.2⟩
  have snapshots {s : Snapshot}
      (ok : s.EachDocument fun d => d.tree.Integral ∧ d.isNull = false) : s.EachDocument Carried :=
    Registers.EachDocument.imp ok carried
  refine ⟨fun m ok shallow => ?_, fun a ok shallow => ?_, fun s ok shallow => ?_,
    fun n ok shallow peer now => ?_⟩
  · exact (Message.roundTrips_format.decode_encode Message.writesPlain_format (ok.imp carried)
      m).mpr ⟨rfl, Nat.le_of_lt_succ shallow⟩
  · exact (Acknowledgment.roundTrips_format.decode_encode Acknowledgment.writesPlain_format
      (fun m reply => (ok m reply).imp carried) a).mpr ⟨rfl, Nat.le_of_lt_succ shallow⟩
  · exact (Snapshot.roundTrips_format.decode_encode Snapshot.writesPlain_format (snapshots ok)
      s).mpr ⟨rfl, Nat.le_of_lt_succ shallow⟩
  · have back := Node.snapshot_of_fullState (snapshots ok) (Nat.le_of_lt_succ shallow)
    simp only [Node.fullMessage, Node.responseMessage, Node.messageTo, Message.snapshot, back,
      and_self]

/-- A document, a deletion, a slot that stands at zero and names with escapes, on every way. -/
theorem wire_forms_come_back_escaped :
    let d : Document := .ofTree (.list [.string "\\", .list [.number (.integer (-5))]])
    let clock : Clock := .ofList [("a", 2), ("b", 0)]
    let registers : Registers Document :=
      .ofList [("k\n", ⟨some d, 7, clock, "a"⟩), ("\"", ⟨none, 8, clock, "a"⟩)]
    let s : Snapshot := ⟨⟨"a", clock, registers⟩, ObservedSet.empty.insert "r" "t", .empty "a"⟩
    let n : Node := ⟨"a", s.threats, s.rules, s.metrics, .empty "a", none⟩
    let m : Message := ⟨"a", "b", 7, clock, .delta ⟨"a", 7, registers⟩ none (some s.metrics)⟩
    Message.format.decode (Message.format.encode m) = .ok m ∧
      Acknowledgment.format.decode (Acknowledgment.format.encode (.synced clock (some m))) =
        .ok (.synced clock (some m)) ∧
      Snapshot.format.decode (Snapshot.format.encode s) = .ok s ∧
      (n.fullMessage "b" 7).snapshot = .ok s ∧ (n.responseMessage "b" 7).snapshot = .ok s := by
  intro d clock registers s n m
  have documents : registers.EachDocument fun d => d.tree.Integral ∧ d.isNull = false := by
    refine SortedMap.forall_values_ofList
      (P := fun r : Register (Option Document) => ∀ d, r.value = some d →
        d.tree.Integral ∧ d.isNull = false) fun e member d live => ?_
    rcases List.mem_pair.mp member with rfl | rfl
    · obtain rfl := Option.some.inj live
      exact ⟨⟨trivial, ⟨⟨by decide, by decide⟩, trivial⟩, trivial⟩, rfl⟩
    · contradiction
  obtain ⟨messages, acknowledgments, snapshots, states⟩ := wire_forms_come_back
  refine ⟨messages m documents ?_, acknowledgments _ (fun m' reply => ?_) ?_,
    snapshots s documents ?_, states n documents ?_ "b" 7⟩
  · rw [Json.nesting_encode Message.writesPlain_format]
    decide
  · obtain rfl := Option.some.inj reply
    exact documents
  · rw [Json.nesting_encode Acknowledgment.writesPlain_format]
    decide
  · rw [Json.nesting_encode Snapshot.writesPlain_format]
    decide
  · rw [Node.fullState, Json.nesting_encode Snapshot.writesPlain_format]
    decide

end ThreatGossip

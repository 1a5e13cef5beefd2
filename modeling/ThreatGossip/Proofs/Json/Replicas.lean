import ThreatGossip.Proofs.Absorption
import ThreatGossip.Proofs.Json.Records
import ThreatGossip.Wire.Message
/-!
Replicas that come back from their text. Clocks come back as they are, and so a snapshot that comes
back has the versions and the clocks of the one that was written, whatever became of its documents.
-/
namespace ThreatGossip

open Json (Format Record)
open Json.Record (field fieldOr)

namespace Json.Format

variable {α β : Type} {f : Format α} {room : Nat} {ms ns : List (String × α)}

theorem eq_of_memberReturns (same : ∀ a b, f.Returns room a b → b = a)
    (h : List.Forall₂ (f.MemberReturns room) ms ns) : ns = ms := by
  induction h with
  | nil => rfl
  | cons first _ ih => rw [ih, Prod.ext first.1 (same _ _ first.2)]

/-- What every value keeps is kept under every key. -/
theorem lookUp_of_memberReturns (view : α → β)
    (same : ∀ a b, f.Returns room a b → view b = view a)
    (h : List.Forall₂ (f.MemberReturns room) ms ns) (k : String) :
    (SortedMap.lookUp k ns).map view = (SortedMap.lookUp k ms).map view := by
  induction h with
  | nil => rfl
  | cons first _ ih =>
      rw [SortedMap.lookUp, SortedMap.lookUp, first.1]
      split
      · exact congrArg some (same _ _ first.2)
      · exact ih

end Json.Format

theorem Clock.writesPlain_format : Clock.format.WritesPlain :=
  Format.writesPlain_imap (Format.writesPlain_map Format.writesPlain_count) _ _

/-- A clock comes back as it is. -/
theorem Clock.returns_format {room : Nat} {c d : Clock} (h : Clock.format.Returns (room + 1) c d) :
    d = c := by
  obtain ⟨slots, back, rfl⟩ := Format.returns_imap.mp h
  have entries := Format.eq_of_memberReturns (fun _ _ => Format.returns_count.mp)
    (Format.returns_map.mp back)
  rw [SortedMap.eq_of_entries entries]

section Registers

variable {α : Type} {value : Record α} {f : Format α}

theorem Register.writesPlain_recordOf (h : value.WritesPlain) :
    (Register.recordOf value).WritesPlain :=
  Record.writesPlain_imap <| Record.writesPlain_and h <|
    Record.writesPlain_and (Record.writesPlain_field Format.writesPlain_count) <|
      Record.writesPlain_and (Record.writesPlain_field Clock.writesPlain_format)
        (Record.writesPlain_field Format.writesPlain_string)

theorem writesPlain_optionalValue (h : f.WritesPlain) : (optionalValue f).WritesPlain :=
  Record.writesPlain_fieldOr (Format.writesPlain_nullable h)

theorem Registers.writesPlain_format (h : f.WritesPlain) : (Registers.format f).WritesPlain :=
  Format.writesPlain_map <| Record.writesPlain_format <|
    Register.writesPlain_recordOf (writesPlain_optionalValue h)

/-- A register comes back with its timestamp, clock and writer. -/
theorem Register.returns_recordOf (lawful : value.Lawful) (names : value.names = ["value"])
    {room : Nat} {r s : Register α} (h : (Register.recordOf value).Returns (room + 1) r s) :
    value.Returns (room + 1) r.value s.value ∧ s.timestamp = r.timestamp ∧ s.clock = r.clock ∧
      s.writer = r.writer := by
  obtain ⟨⟨a, timestamp, clock, writer⟩, back, rfl⟩ := Record.returns_imap.mp h
  have tail : ((field "clock" Clock.format).and (field "writer" .string)).Lawful :=
    Record.lawful_and Record.lawful_field Record.lawful_field
  rw [Record.returns_and lawful (Record.lawful_and Record.lawful_field tail)
      (by rw [names]; decide),
    Record.returns_field_and tail (by decide),
    Record.returns_field_and Record.lawful_field (by decide), Record.returns_field] at back
  obtain ⟨same, stamp, clocks, name⟩ := back
  exact ⟨same, Format.returns_count.mp stamp, Clock.returns_format clocks,
    Format.returns_string.mp name⟩

/-- Registers come back under their keys with their clocks. -/
theorem Registers.returns_format {room : Nat} {rs ss : Registers α}
    (h : (Registers.format f).Returns (room + 3) rs ss) (k : String) :
    (ss.get? k).map Register.clock = (rs.get? k).map Register.clock := by
  refine Format.lookUp_of_memberReturns Register.clock (fun r s back => ?_)
    (Format.returns_map.mp h) k
  exact (Register.returns_recordOf Record.lawful_fieldOr rfl
    (Record.returns_format.mp back)).2.2.1

end Registers

section Snapshots

variable {α : Type} {f : Format α}

theorem RegisterMap.writesPlain_format (h : f.WritesPlain) : (RegisterMap.format f).WritesPlain :=
  Record.writesPlain_format <| Record.writesPlain_imap <|
    Record.writesPlain_and (Record.writesPlain_field Format.writesPlain_string) <|
      Record.writesPlain_and (Record.writesPlain_field Clock.writesPlain_format)
        (Record.writesPlain_field (Registers.writesPlain_format h))

theorem GrowCounter.writesPlain_format : GrowCounter.format.WritesPlain :=
  Record.writesPlain_format <| Record.writesPlain_imap <|
    Record.writesPlain_and (Record.writesPlain_field Format.writesPlain_string)
      (Record.writesPlain_field (Format.writesPlain_map Format.writesPlain_count))

theorem Counter.writesPlain_format : Counter.format.WritesPlain :=
  Record.writesPlain_format <| Record.writesPlain_imap <|
    Record.writesPlain_and (Record.writesPlain_field GrowCounter.writesPlain_format)
      (Record.writesPlain_field GrowCounter.writesPlain_format)

theorem GrowSet.writesPlain_format : GrowSet.format.WritesPlain :=
  Record.writesPlain_format <| Record.writesPlain_imap <|
    Record.writesPlain_field Format.writesPlain_set

theorem ObservedSet.writesPlain_formatOf {α : Type} [Ord α]
    {tags : Format (SortedMap α (SortedSet String))} (h : tags.WritesPlain) :
    (ObservedSet.formatOf tags).WritesPlain :=
  Record.writesPlain_format <| Record.writesPlain_imap <|
    Record.writesPlain_and (Record.writesPlain_field h) (Record.writesPlain_field h)

theorem ObservedSet.writesPlain_format : ObservedSet.format.WritesPlain :=
  writesPlain_formatOf (Format.writesPlain_map Format.writesPlain_set)

theorem Snapshot.writesPlain_format : Snapshot.format.WritesPlain :=
  Record.writesPlain_format <| Record.writesPlain_imap <|
    Record.writesPlain_and
      (Record.writesPlain_field (RegisterMap.writesPlain_format Format.writesPlain_document)) <|
      Record.writesPlain_and (Record.writesPlain_field ObservedSet.writesPlain_format)
        (Record.writesPlain_field Counter.writesPlain_format)

/-- A replica comes back with its version and the clocks of its registers. -/
theorem RegisterMap.returns_format {room : Nat} {m n : RegisterMap α}
    (h : (RegisterMap.format f).Returns (room + 4) m n) : n.SameClocks m := by
  obtain ⟨⟨owner, version, registers⟩, back, rfl⟩ :=
    Record.returns_imap.mp (Record.returns_format.mp h)
  rw [Record.returns_field_and (Record.lawful_and Record.lawful_field Record.lawful_field)
      (show "node" ∉ ["version", "entries"] by decide),
    Record.returns_field_and Record.lawful_field (show "version" ∉ ["entries"] by decide),
    Record.returns_field] at back
  obtain ⟨-, version, registers⟩ := back
  exact ⟨Clock.returns_format version, Registers.returns_format registers⟩

/-- A snapshot that comes back has the version and the clocks of the one that was written. -/
theorem Snapshot.sameClocks_of_decode {s t : Snapshot}
    (h : Snapshot.format.decode (Snapshot.format.encode s) = .ok t) :
    t.threats.SameClocks s.threats := by
  obtain ⟨⟨threats, rules, metrics⟩, back, rfl⟩ := Record.returns_imap.mp <|
    Record.returns_format.mp ((Format.decode_encode Snapshot.writesPlain_format s t).mp h)
  rw [Record.returns_field_and (Record.lawful_and Record.lawful_field Record.lawful_field)
    (by decide)] at back
  exact RegisterMap.returns_format back.1

end Snapshots

section Messages

variable {α : Type} {f : Format α}

theorem Delta.writesPlain_format (h : f.WritesPlain) : (Delta.format f).WritesPlain :=
  Record.writesPlain_format <| Record.writesPlain_imap <|
    Record.writesPlain_and (Record.writesPlain_field Format.writesPlain_string) <|
      Record.writesPlain_and (Record.writesPlain_field Format.writesPlain_count)
        (Record.writesPlain_field (Registers.writesPlain_format h))

theorem Payload.plain_members (p : Payload) : ∀ m ∈ p.members, m.2.Plain := by
  intro m member
  rcases List.mem_cons.mp member with rfl | part
  · trivial
  · cases p with
    | delta threats rules metrics =>
        have plain : Payload.deltaParts.WritesPlain :=
          Record.writesPlain_and
            (Record.writesPlain_field (Delta.writesPlain_format Format.writesPlain_document)) <|
            Record.writesPlain_and
              (Record.writesPlain_fieldOr
                (Format.writesPlain_nullable ObservedSet.writesPlain_format))
              (Record.writesPlain_fieldOr (Format.writesPlain_nullable Counter.writesPlain_format))
        exact plain _ m part
    | full state => exact Record.writesPlain_field Format.writesPlain_string state m part
    | request => contradiction
    | response state => exact Record.writesPlain_field Format.writesPlain_string state m part

theorem Message.Envelope.writesPlain_record : Message.Envelope.record.WritesPlain :=
  Record.writesPlain_imap <| Record.writesPlain_and
    (Record.writesPlain_field Format.writesPlain_string) <|
    Record.writesPlain_and (Record.writesPlain_field Format.writesPlain_string) <|
      Record.writesPlain_and (Record.writesPlain_field Format.writesPlain_count)
        (Record.writesPlain_fieldOr Clock.writesPlain_format)

theorem Message.plain_members (m : Message) :
    ∀ n ∈ Message.Envelope.record.members m.envelope ++ m.payload.members, n.2.Plain := by
  intro n member
  rcases List.mem_append.mp member with outside | inside
  · exact Message.Envelope.writesPlain_record _ n outside
  · exact m.payload.plain_members n inside

theorem Message.writesPlain_format : Message.format.WritesPlain := fun message =>
  Json.Tree.plain_record message.plain_members

theorem Acknowledgment.writesPlain_format : Acknowledgment.format.WritesPlain :=
  Record.writesPlain_format <| Record.writesPlain_imap <|
    Record.writesPlain_and (Record.writesPlain_field Format.writesPlain_string) <|
      Record.writesPlain_and (Record.writesPlain_fieldOr Clock.writesPlain_format)
        (Record.writesPlain_fieldOr (Format.writesPlain_nullable Message.writesPlain_format))

/-- An acknowledgment without a reply comes back as it is. -/
theorem Acknowledgment.eq_of_decode {a b : Acknowledgment} (silent : a.reply = none)
    (h : Acknowledgment.format.decode (Acknowledgment.format.encode a) = .ok b) : b = a := by
  obtain ⟨⟨status, version, reply⟩, back, rfl⟩ := Record.returns_imap.mp <|
    Record.returns_format.mp ((Format.decode_encode Acknowledgment.writesPlain_format a b).mp h)
  rw [Record.returns_field_and (Record.lawful_and Record.lawful_fieldOr Record.lawful_fieldOr)
      (show "status" ∉ ["version", "reply"] by decide),
    Record.returns_and Record.lawful_fieldOr Record.lawful_fieldOr
      (show ∀ n ∈ ["reply"], n ∉ ["version"] by decide),
    Record.returns_fieldOr, Record.returns_fieldOr, if_neg Bool.false_ne_true, silent] at back
  obtain ⟨words, clocks, absent⟩ := back
  rw [Format.returns_string.mp words, Clock.returns_format clocks, ← Option.some.inj absent]
  rw [← silent]

end Messages

end ThreatGossip

import ThreatGossip.Proofs.Depths
import ThreatGossip.Proofs.Json.IntegerKeys
/-!
One pass through a format is enough. A value may be read from many texts: records as arrays, members
in any order, unknown ones among them, names repeated, optional members missing, sets unsorted. What
is then written for it is read as the same value again, so a second pass leaves the text as it is.
-/
namespace ThreatGossip

open Json (Document Format Name Record Tree)

namespace Json.Format

/-- What is read of a text whose numbers are all integers of the 64-bit ranges is read again of the
text that is written for it, and then written again as it stands. -/
def NormalizesOnce {α : Type} (f : Format α) : Prop :=
  ∀ text a, (Tree.ofChars text.toList).1.Integral → f.decode text = .ok a →
    f.decode (f.encode a) = .ok a ∧ (f.decode (f.encode a)).map f.encode = .ok (f.encode a)

variable {α : Type} {f : Format α} {fit : α → Prop}

/-- A format normalizes in one pass when all that it reads comes back. -/
theorem normalizesOnce_of_yields (h : f.RoundTrips fit) (plain : f.WritesPlain)
    {within : Nat → α → Prop} (found : f.Yields within)
    (comes : ∀ a, within maxDepth a → fit a ∧ (f.write a).depth ≤ maxDepth) :
    f.NormalizesOnce := by
  intro text a integral decoded
  obtain ⟨t, rest, tree, -, read⟩ := decode_eq_ok_iff.mp decoded
  rw [tree] at integral
  obtain ⟨ok, shallow⟩ := comes a (found maxDepth t a integral read)
  have back : f.decode (f.encode a) = .ok a := by
    refine (h.decode_encode plain ok a).mpr ⟨rfl, ?_⟩
    rwa [nesting_encode plain]
  exact ⟨back, congrArg (Except.map f.encode) back⟩

/-- A format whose values all come back, and nest a few levels only, normalizes in one pass. -/
theorem normalizesOnce_of_shallow (h : f.RoundTrips fun _ => True) (plain : f.WritesPlain)
    {levels : Nat} (within : levels ≤ maxDepth) (shallow : ∀ a, (f.write a).depth ≤ levels) :
    f.NormalizesOnce :=
  normalizesOnce_of_yields h plain yields_any fun a _ =>
    ⟨trivial, Nat.le_trans (shallow a) within⟩

/-- What a pass makes of a text is read as the text is. -/
theorem NormalizesOnce.decode_eq (h : f.NormalizesOnce) {text neat : String}
    (integral : (Tree.ofChars text.toList).1.Integral)
    (passed : (f.decode text).map f.encode = .ok neat) : f.decode neat = f.decode text := by
  obtain ⟨a, read, rfl⟩ := map_eq_ok_iff.mp passed
  rw [(h text a integral read).1, read]

end Json.Format

/-- A document that comes back where so much room is left. -/
structure Fits (room : Nat) (d : Document) : Prop where
  carried : Carried d
  shallow : d.tree.depth ≤ room

/-- A format that carries documents normalizes in one pass: each of them comes back, and nests no
deeper than there was room for it. -/
theorem normalizesOnce_of_fits {α : Type} {f : Format α} (each : (Document → Prop) → α → Prop)
    (imp : ∀ {P Q : Document → Prop} {a : α}, each P a → (∀ d, P d → Q d) → each Q a)
    (h : f.RoundTrips (each Carried)) (plain : f.WritesPlain) {levels : Nat}
    (found : f.Yields fun room => each (Fits (room - levels)))
    (shallow : ∀ a, each (·.tree.depth ≤ Json.maxDepth - levels) a →
      (f.write a).depth ≤ Json.maxDepth) : f.NormalizesOnce :=
  Format.normalizesOnce_of_yields h plain found fun a fits =>
    ⟨imp fits fun _ d => d.carried, shallow a (imp fits fun _ d => d.shallow)⟩

section Registers

/-- Only the documents of registers are of interest; a missing one stands for a deletion. -/
theorem yields_optionalDocument :
    (optionalValue .document).Yields fun room o => ∀ d, o = some d → Fits room d := by
  refine Record.yields_fieldOr (Format.yields_nullable fun room t d integral solid read => ?_) ?_
  · obtain ⟨legible, rfl, numbers, depth⟩ := Format.document_of_read integral read
    refine ⟨⟨Document.portable_of_integral numbers, ?_⟩, depth⟩
    refine Bool.eq_false_iff.mpr fun null => ?_
    exact Tree.normalize_ne_null legible solid (Document.isNull_iff.mp null)
  · rintro room (_ | _) o absent d rfl
    · nomatch absent
    · nomatch absent

theorem Register.yields_recordOf {α : Type} {value : Record α} {fit : Nat → α → Prop}
    (h : value.Yields fit) : (Register.recordOf value).Yields fun room r => fit room r.value :=
  (h.and Record.yields_any).imap fun _ _ found => found.1

theorem Register.yields_format :
    (Register.recordOf (optionalValue .document)).format.Yields fun room r =>
      ∀ d, r.value = some d → Fits (room - 1) d :=
  (Register.yields_recordOf yields_optionalDocument).format

theorem Registers.yields_format :
    (Registers.format .document).Yields fun room rs => rs.EachDocument (Fits (room - 2)) :=
  Register.yields_format.map

theorem RegisterMap.yields_format :
    (RegisterMap.format .document).Yields fun room m =>
      m.registers.EachDocument (Fits (room - 3)) :=
  (Record.yields_any.and (Record.yields_any.and
    (Record.yields_field "entries" Registers.yields_format))).imap_format fun _ _ found =>
      found.2.2

theorem Delta.yields_format :
    (Delta.format .document).Yields fun room d => d.changes.EachDocument (Fits (room - 3)) :=
  (Record.yields_any.and (Record.yields_any.and
    (Record.yields_field "changes" Registers.yields_format))).imap_format fun _ _ found =>
      found.2.2

end Registers

theorem Snapshot.yields_format :
    Snapshot.format.Yields fun room s => s.EachDocument (Fits (room - 4)) :=
  ((Record.yields_field "threat_intel" RegisterMap.yields_format).and Record.yields_any).imap_format
    fun _ _ found => found.1

namespace Payload

theorem yields_deltaParts :
    deltaParts.Yields fun room parts => parts.1.changes.EachDocument (Fits (room - 3)) :=
  ((Record.yields_field "threat_delta" Delta.yields_format).and Record.yields_any).imp
    fun _ _ found => found.1

theorem yields_parts {α : Type} {r : Record α} {fit : Nat → α → Prop} (h : r.Yields fit)
    {room : Nat} {kept : List (Name × Tree)} (integral : Tree.IntegralMembers kept) {a : α}
    (found : parts r room kept = some a) : fit room a := by
  obtain ⟨slots, gathered, finish⟩ := parts_eq_some_iff.mp found
  exact h room slots .object a (Record.Reached.empty.gather integral gathered) finish

/-- Only a delta brings documents. -/
theorem delta_of_ofMembers? {room : Nat} {kept : List (Name × Tree)}
    (integral : Tree.IntegralMembers kept) {threats : Delta Document}
    {rules : Option (ObservedSet String)} {metrics : Option Counter}
    (found : ofMembers? room kept = some (.delta threats rules metrics)) :
    threats.changes.EachDocument (Fits (room - 3)) := by
  unfold ofMembers? at found
  split at found
  next =>
    split at found
    next =>
      obtain ⟨⟨threats', rules', metrics'⟩, read, same⟩ := Option.map_eq_some_iff.mp found
      cases same
      exact yields_parts yields_deltaParts integral read
    next =>
      obtain ⟨state, -, other⟩ := Option.map_eq_some_iff.mp found
      contradiction
    next => nomatch found
    next =>
      obtain ⟨state, -, other⟩ := Option.map_eq_some_iff.mp found
      contradiction
    next => contradiction
  next => contradiction

end Payload

namespace Message

/-- The members that are kept beside the envelope are members of the text. -/
theorem integral_of_gather {room : Nat} {slots last : Envelope.record.Slots}
    {ms kept : List (Name × Tree)} (integral : Tree.IntegralMembers ms)
    (read : gather room slots ms = .ok (last, kept)) : Tree.IntegralMembers kept := by
  induction ms generalizing slots kept with
  | nil =>
      cases Except.ok.inj read
      trivial
  | cons m ms ih =>
      obtain ⟨first, others⟩ := integral
      rw [gather] at read
      split at read
      next => contradiction
      next =>
        split at read
        next =>
          obtain ⟨next, -, rest⟩ := Json.bind_eq_ok_iff.mp read
          exact ih others rest
        next =>
          split at read
          next =>
            obtain ⟨⟨next, others'⟩, rest, same⟩ := Json.bind_eq_ok_iff.mp read
            cases Except.ok.inj same
            exact ⟨first, ih others rest⟩
          next => contradiction

theorem yields_format :
    Message.format.Yields fun room m => m.EachDocument (Fits (room - 4)) := by
  intro room t m integral read
  match room, t with
  | room + 1, .object ms closed =>
      obtain ⟨⟨slots, kept⟩, gathered, rest⟩ := Json.bind_eq_ok_iff.mp read
      dsimp only at rest
      split at rest
      next => contradiction
      next =>
        obtain ⟨e, -, found⟩ := Json.bind_eq_ok_iff.mp rest
        split at found
        next payload found' =>
          obtain rfl := Except.ok.inj found
          unfold EachDocument
          split
          next same =>
            cases same
            exact Payload.delta_of_ofMembers? (integral_of_gather integral gathered) found'
          all_goals trivial
        next => contradiction
  | 0, .object _ _ => contradiction
  | _, .null | _, .boolean _ | _, .number _ | _, .string _ | _, .array _ _ | _, .flawed
  | _, .broken => simp [Message.format] at read

end Message

theorem Acknowledgment.yields_format :
    Acknowledgment.format.Yields fun room a => a.EachDocument (Fits (room - 5)) := by
  have reply : (Json.Record.fieldOr "reply" Message.format.nullable (fun _ => some none)
      Option.isNone).Yields fun room o =>
        ∀ m, o = some m → m.EachDocument (Fits (room - 4)) := by
    refine Record.yields_fieldOr Message.yields_format.nullable ?_
    rintro room layout o absent m rfl
    nomatch absent
  exact (Record.yields_any.and (Record.yields_any.and reply)).imap_format fun _ _ found => found.2.2

section Integers

theorem ObservedSet.roundTrips_integerFormat :
    ObservedSet.integerFormat.RoundTrips fun s =>
      (∀ e ∈ s.added.entries, Format.FitEntry (fun _ => True) e) ∧
        ∀ e ∈ s.removed.entries, Format.FitEntry (fun _ => True) e :=
  roundTrips_formatOf Format.roundTrips_set.integerMap

theorem ObservedSet.yields_integerFormat :
    ObservedSet.integerFormat.Yields fun _ s =>
      (∀ e ∈ s.added.entries, minSigned ≤ e.1 ∧ e.1 ≤ maxSigned) ∧
        ∀ e ∈ s.removed.entries, minSigned ≤ e.1 ∧ e.1 ≤ maxSigned :=
  ((Record.yields_field "additions" (Format.yields_integerMap .set)).and
    (Record.yields_field "removals" (Format.yields_integerMap .set))).imap_format
      fun _ _ found => found

end Integers

/-- Decoding normalizes once, whatever is read: clocks, registers, counters, sets of texts and of
integers, maps, deltas, snapshots, messages and acknowledgments. -/
theorem decoding_normalizes_once :
    Clock.format.NormalizesOnce ∧
    (Register.recordOf (optionalValue .document)).format.NormalizesOnce ∧
    GrowCounter.format.NormalizesOnce ∧
    Counter.format.NormalizesOnce ∧
    GrowSet.format.NormalizesOnce ∧
    ObservedSet.format.NormalizesOnce ∧
    ObservedSet.integerFormat.NormalizesOnce ∧
    (RegisterMap.format .document).NormalizesOnce ∧
    (Delta.format .document).NormalizesOnce ∧
    Snapshot.format.NormalizesOnce ∧
    Message.format.NormalizesOnce ∧
    Acknowledgment.format.NormalizesOnce := by
  refine ⟨?clock, ?register, ?grow, ?counter, ?set, ?observed, ?integers, ?map, ?delta, ?snapshot,
    ?message, ?acknowledgment⟩
  case clock =>
    exact Format.normalizesOnce_of_shallow Clock.roundTrips_format Clock.writesPlain_format
      (by decide) Clock.depth_write
  case grow =>
    exact Format.normalizesOnce_of_shallow GrowCounter.roundTrips_format
      GrowCounter.writesPlain_format (by decide) GrowCounter.depth_write
  case counter =>
    exact Format.normalizesOnce_of_shallow Counter.roundTrips_format Counter.writesPlain_format
      (by decide) Counter.depth_write
  case set =>
    exact Format.normalizesOnce_of_shallow GrowSet.roundTrips_format GrowSet.writesPlain_format
      (by decide) GrowSet.depth_write
  case observed =>
    exact Format.normalizesOnce_of_shallow ObservedSet.roundTrips_format
      ObservedSet.writesPlain_format (by decide) ObservedSet.depth_write
  case integers =>
    refine Format.normalizesOnce_of_yields ObservedSet.roundTrips_integerFormat
      (ObservedSet.writesPlain_formatOf (Format.writesPlain_integerMap Format.writesPlain_set))
      ObservedSet.yields_integerFormat fun s keys => ⟨⟨?_, ?_⟩, ?_⟩
    · exact fun e listed => ⟨keys.1 e listed, trivial⟩
    · exact fun e listed => ⟨keys.2 e listed, trivial⟩
    · exact Nat.le_trans s.depth_write_integers (by decide)
  case register =>
    exact normalizesOnce_of_fits (fun P r => ∀ d, r.value = some d → P d)
      (fun fits weaker d live => weaker d (fits d live)) Register.roundTrips_documents
      (Record.writesPlain_format (Register.writesPlain_recordOf
        (writesPlain_optionalValue Format.writesPlain_document)))
      Register.yields_format fun r => r.depth_write_le.mpr
  case map =>
    exact normalizesOnce_of_fits (fun P m => m.registers.EachDocument P)
      Registers.EachDocument.imp RegisterMap.roundTrips_format
      (RegisterMap.writesPlain_format Format.writesPlain_document) RegisterMap.yields_format
      fun m => m.depth_write_le.mpr
  case delta =>
    exact normalizesOnce_of_fits (fun P d => d.changes.EachDocument P)
      Registers.EachDocument.imp Delta.roundTrips_format
      (Delta.writesPlain_format Format.writesPlain_document) Delta.yields_format
      fun d => d.depth_write_le.mpr
  case snapshot =>
    exact normalizesOnce_of_fits (fun P s => s.EachDocument P) Registers.EachDocument.imp
      Snapshot.roundTrips_format Snapshot.writesPlain_format Snapshot.yields_format
      fun s => (s.depth_write_le 122).mpr
  case message =>
    exact normalizesOnce_of_fits (fun P m => m.EachDocument P) Message.EachDocument.imp
      Message.roundTrips_format Message.writesPlain_format Message.yields_format
      fun m => (m.depth_write_le 122).mpr
  case acknowledgment =>
    exact normalizesOnce_of_fits (fun P a => a.EachDocument P)
      (fun fits weaker m reply => (fits m reply).imp weaker) Acknowledgment.roundTrips_format
      Acknowledgment.writesPlain_format Acknowledgment.yields_format
      fun a => (a.depth_write_le 121).mpr

/-- A register in an array, with a document that names a member twice; and a message whose type is
a number and stands first, with an escape, an unknown member and no version. -/
theorem wild_texts_normalized :
    let array := "[\x7b\"y\": -1, \"x\": 0, \"y\": null\x7d, 1, \x7b\x7d, \"w\"]"
    let register :=
      "\x7b\"value\":\x7b\"x\":0,\"y\":null\x7d,\"timestamp\":1,\"clock\":\x7b\x7d," ++
        "\"writer\":\"w\"\x7d"
    let mixed :=
      "\x7b\"type\":2,\"to_node\":\"b\",\"m\":[],\"timestamp\":7,\"from_node\":\"\\u0061\"\x7d"
    let message :=
      "\x7b\"from_node\":\"a\",\"to_node\":\"b\",\"timestamp\":7,\"version\":\x7b\x7d," ++
        "\"type\":\"request\"\x7d"
    let format := (Register.recordOf (optionalValue .document)).format
    ((Tree.ofChars array.toList).1.Integral ∧
      (format.decode array).map format.encode = .ok register ∧
      format.decode register = format.decode array) ∧
    (Tree.ofChars mixed.toList).1.Integral ∧
      (Message.format.decode mixed).map Message.format.encode = .ok message ∧
      Message.format.decode message = Message.format.decode mixed := by
  intro array register mixed message format
  obtain ⟨-, registers, -, -, -, -, -, -, -, -, messages, -⟩ := decoding_normalizes_once
  have plain : (Tree.ofChars array.toList).1.Integral := by decide +kernel
  have ordered : (format.decode array).map format.encode = .ok register := by decide +kernel
  have integral : (Tree.ofChars mixed.toList).1.Integral := by decide +kernel
  have passed : (Message.format.decode mixed).map Message.format.encode = .ok message := by
    decide +kernel
  exact ⟨⟨plain, ordered, registers.decode_eq plain ordered⟩, integral, passed,
    messages.decode_eq integral passed⟩

end ThreatGossip

import ThreatGossip.Wire.Replicas
/-!
JSON forms of messages and acknowledgments. A message is one flat object: the envelope's members, a
`type` that names the kind, and the members of that kind. The envelope is read as it comes; all
other members are kept until the object ends, because the kind may stand after its members.
-/
namespace ThreatGossip

open Json (Fault Format Name Record Tree)
open Json.Record (field fieldOr)

def MessageKind.format : Format MessageKind :=
  .choice (MessageKind.all.map fun k => (k.name, k)) MessageKind.name

namespace Payload

/-- A part that may be missing or `null`, and is then not written. -/
def optionalPart {α : Type} (name : String) (f : Format α) : Record (Option α) :=
  fieldOr name f.nullable (fun _ => some none) Option.isNone

def deltaParts : Record (Delta Json.Document × Option (ObservedSet String) × Option Counter) :=
  (field "threat_delta" (Delta.format .document)).and
    ((optionalPart "rules_delta" ObservedSet.format).and
      (optionalPart "metrics_delta" Counter.format))

def stateParts : Record String := field "full_state" .string

/-- The members of a payload, `type` first. -/
def members (p : Payload) : List (String × Tree) :=
  ("type", .string p.kind.name) ::
    match p with
    | delta threats rules metrics => deltaParts.members (threats, rules, metrics)
    | full state => stateParts.members state
    | request => []
    | response state => stateParts.members state

/-- The kind that a `type` member names, also by its place in the list of kinds. -/
def kindOf? : Tree → Option MessageKind
  | .string s => (MessageKind.all.map fun k => (k.name, k)).lookup s
  | .number (.integer i) => if 0 ≤ i then MessageKind.all[i.toNat]? else none
  | _ => none

/-- The parts of one kind among all kept members. -/
def parts {α : Type} (r : Record α) (room : Nat) (kept : List (Name × Tree)) : Option α :=
  match r.gather room r.empty kept with
  | .ok slots => (r.finish .object slots).toOption
  | .error _ => none

/-- The payload that kept members spell; exactly one of them is the `type`. -/
def ofMembers? (room : Nat) (kept : List (Name × Tree)) : Option Payload :=
  match kept.filter (·.1.text? == some "type") with
  | [(_, t)] =>
    match kindOf? t with
    | some .delta => (parts deltaParts room kept).map fun (threats, rules, metrics) =>
      .delta threats rules metrics
    | some .full => (parts stateParts room kept).map .full
    | some .request => some .request
    | some .response => (parts stateParts room kept).map .response
    | none => none
  | _ => none

end Payload

namespace Message

structure Envelope where
  sender : NodeId
  recipient : NodeId
  timestamp : Millis
  version : Clock

def Envelope.record : Record Envelope :=
  ((field "from_node" .string).and ((field "to_node" .string).and
    ((field "timestamp" .count).and
      (fieldOr "version" Clock.format (fun _ => some .empty) (fun _ => false))))).imap
        (fun (sender, recipient, timestamp, version) => ⟨sender, recipient, timestamp, version⟩)
        (fun e => (e.sender, e.recipient, e.timestamp, e.version))

def envelope (m : Message) : Envelope := ⟨m.sender, m.recipient, m.timestamp, m.version⟩

/-- Reads the envelope's members and keeps the others, which must be legible. -/
def gather (room : Nat) : Envelope.record.Slots → List (Name × Tree) →
    Except Fault (Envelope.record.Slots × List (Name × Tree))
  | slots, [] => .ok (slots, [])
  | slots, (name, t) :: ms =>
    match name.text? with
    | none => .error .malformed
    | some text =>
      match Envelope.record.take? slots text with
      | some read => do
        let slots ← read room t
        gather room slots ms
      | none =>
        if t.legible room then do
          let (slots, kept) ← gather room slots ms
          .ok (slots, (name, t) :: kept)
        else .error .malformed

def format : Format Message where
  write m := .record (Envelope.record.members m.envelope ++ m.payload.members)
  read
    | 0, .object _ _ => .error .malformed
    | room + 1, .object ms closed => do
      let (slots, kept) ← gather room Envelope.record.empty ms
      if !closed then .error .malformed
      let e ← Envelope.record.finish .object slots
      match Payload.ofMembers? room kept with
      | some payload => .ok ⟨e.sender, e.recipient, e.timestamp, e.version, payload⟩
      | none => .error .misshapen
    | _, t => .error t.fault

end Message

def Acknowledgment.format : Format Acknowledgment :=
  ((field "status" .string).and
    ((fieldOr "version" Clock.format (fun _ => some .empty) (fun _ => false)).and
      (fieldOr "reply" Message.format.nullable (fun _ => some none) Option.isNone))).imap
        (fun (status, version, reply) => ⟨status, version, reply⟩)
        (fun a => (a.status, a.version, a.reply)) |>.format

inductive SnapshotError where
  | unreadable (fault : Fault)
  | noState (kind : MessageKind)

def Message.snapshot (m : Message) : Except SnapshotError Snapshot :=
  match m.payload with
  | .full state | .response state =>
    match Snapshot.format.decode state with
    | .ok s => .ok s
    | .error fault => .error (.unreadable fault)
  | .delta .. => .error (.noState .delta)
  | .request => .error (.noState .request)

end ThreatGossip

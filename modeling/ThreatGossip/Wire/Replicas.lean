import ThreatGossip.Json.Record
import ThreatGossip.Message
/-!
JSON forms of clocks, registers, maps, counters and sets.
-/
namespace ThreatGossip

open Json (Format Record)
open Json.Record (field fieldOr)

/-- An object with one member per slot. -/
def Clock.format : Format Clock := (Format.map .count).imap Clock.mk Clock.slots

section Registers

variable {α : Type}

def Register.recordOf (value : Record α) : Record (Register α) :=
  (value.and ((field "timestamp" .count).and
    ((field "clock" Clock.format).and (field "writer" .string)))).imap
      (fun (value, timestamp, clock, writer) => ⟨value, timestamp, clock, writer⟩)
      (fun r => (r.value, r.timestamp, r.clock, r.writer))

/-- A register whose value must be present. -/
def Register.format (f : Format α) : Format (Register α) :=
  (Register.recordOf (field "value" f)).format

/-- A value that `null` marks as deleted, and that an object may leave out. -/
def optionalValue (f : Format α) : Record (Option α) :=
  fieldOr "value" f.nullable
    (fun | .object => some none | .array => none) (fun _ => false)

def Registers.format (f : Format α) : Format (Registers α) :=
  Format.map (Register.recordOf (optionalValue f)).format

def Delta.format (f : Format α) : Format (Delta α) :=
  ((field "node_id" .string).and ((field "timestamp" .count).and
    (field "changes" (Registers.format f)))).imap
      (fun (source, timestamp, changes) => ⟨source, timestamp, changes⟩)
      (fun d => (d.source, d.timestamp, d.changes)) |>.format

def RegisterMap.format (f : Format α) : Format (RegisterMap α) :=
  ((field "node" .string).and ((field "version" Clock.format).and
    (field "entries" (Registers.format f)))).imap
      (fun (owner, version, registers) => ⟨owner, version, registers⟩)
      (fun m => (m.owner, m.version, m.registers)) |>.format

end Registers

def GrowCounter.format : Format GrowCounter :=
  ((field "node" .string).and (field "counts" (Format.map .count))).imap
    (fun (owner, counts) => ⟨owner, counts⟩) (fun c => (c.owner, c.counts)) |>.format

def Counter.format : Format Counter :=
  ((field "positive" GrowCounter.format).and (field "negative" GrowCounter.format)).imap
    (fun (up, down) => ⟨up, down⟩) (fun c => (c.up, c.down)) |>.format

def GrowSet.format : Format GrowSet :=
  (field "items" Format.set).imap GrowSet.mk GrowSet.items |>.format

/-- The tags of both sides, by item. -/
def ObservedSet.formatOf {α : Type} [Ord α] (tags : Format (SortedMap α (SortedSet String))) :
    Format (ObservedSet α) :=
  ((field "additions" tags).and (field "removals" tags)).imap
    (fun (added, removed) => ⟨added, removed⟩) (fun s => (s.added, s.removed)) |>.format

def ObservedSet.format : Format (ObservedSet String) := formatOf (Format.map .set)

def ObservedSet.integerFormat : Format (ObservedSet Int) := formatOf (Format.integerMap .set)

def Snapshot.format : Format Snapshot :=
  ((field "threat_intel" (RegisterMap.format .document)).and
    ((field "rules" ObservedSet.format).and (field "metrics" Counter.format))).imap
      (fun (threats, rules, metrics) => ⟨threats, rules, metrics⟩)
      (fun s => (s.threats, s.rules, s.metrics)) |>.format

end ThreatGossip

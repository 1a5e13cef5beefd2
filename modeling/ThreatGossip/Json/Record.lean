import ThreatGossip.Json.Format
/-!
Formats of structures. A record format is built from fields: one field reads one member, two record
formats side by side read the members of both. Members may come in any order and with others between
them, but none of the known ones twice. A record may also be read from an array of its fields in
order.
-/
namespace ThreatGossip.Json

inductive Layout where
  | object
  | array
  deriving DecidableEq

/-- The format of some members of an object: `Slots` holds what has been read so far. -/
structure Record (α : Type) where
  Slots : Type
  empty : Slots
  names : List String
  /-- What reading the value of a member does; nothing for a name that is not a field. -/
  take? : Slots → String → Option (Nat → Tree → Except Fault Slots)
  finish : Layout → Slots → Except Fault α
  members : α → List (String × Tree)

namespace Record

variable {α β γ : Type}

/-- A field; `absent` is its value where a record of that layout lacks it, and a value that is
`hidden` is not written. -/
def fieldOr (name : String) (f : Format α) (absent : Layout → Option α)
    (hidden : α → Bool) : Record α where
  Slots := Option α
  empty := none
  names := [name]
  take? slot n :=
    if n = name then
      some fun room t =>
        if slot.isSome then .error .misshapen else (f.read room t).map some
    else none
  finish layout slot :=
    match slot.orElse fun _ => absent layout with
    | some a => .ok a
    | none => .error .misshapen
  members a := if hidden a then [] else [(name, f.write a)]

def field (name : String) (f : Format α) : Record α :=
  fieldOr name f (fun _ => none) (fun _ => false)

/-- The fields of two records, those of the first before those of the second. -/
def and (r : Record α) (s : Record β) : Record (α × β) where
  Slots := r.Slots × s.Slots
  empty := (r.empty, s.empty)
  names := r.names ++ s.names
  take? slots n :=
    match r.take? slots.1 n with
    | some read => some fun room t => (read room t).map (·, slots.2)
    | none => (s.take? slots.2 n).map fun read room t => (read room t).map (slots.1, ·)
  finish layout slots := do
    let a ← r.finish layout slots.1
    let b ← s.finish layout slots.2
    .ok (a, b)
  members ab := r.members ab.1 ++ s.members ab.2

/-- The record of `β` through that of `α`: what is read is made a `β`, and a `β` is written by its
view. -/
def imap (r : Record α) (of : α → β) (view : β → α) : Record β where
  Slots := r.Slots
  empty := r.empty
  names := r.names
  take? := r.take?
  finish layout slots := (r.finish layout slots).map of
  members b := r.members (view b)

/-- Reads members in text order; those of other names are passed over. -/
def gather (r : Record α) (room : Nat) : r.Slots → List (Name × Tree) → Except Fault r.Slots
  | slots, [] => .ok slots
  | slots, (name, t) :: ms =>
    match name.text? with
    | none => .error .malformed
    | some name =>
      match r.take? slots name with
      | some read => do
        let slots ← read room t
        gather r room slots ms
      | none => if t.whole then gather r room slots ms else .error .malformed

/-- Reads the items of an array as the fields in order; there may be fewer items than fields, but
not more. -/
def gatherItems (r : Record α) (room : Nat) : r.Slots → List String → List Tree →
    Except Fault r.Slots
  | slots, _, [] => .ok slots
  | _, [], _ :: _ => .error .surplus
  | slots, name :: names, t :: ts =>
    match r.take? slots name with
    | some read => do
      let slots ← read room t
      gatherItems r room slots names ts
    | none => .error .misshapen

def format (r : Record α) : Format α where
  write a := .record (r.members a)
  read
    | 0, .object _ _ => .error .malformed
    | 0, .array _ _ => .error .malformed
    | room + 1, .object ms closed => do
      let slots ← r.gather room r.empty ms
      if closed then r.finish .object slots else .error .malformed
    | room + 1, .array items closed => do
      let slots ← r.gatherItems room r.empty r.names items
      if closed then r.finish .array slots else .error .malformed
    | _, t => .error t.fault

end Record

end ThreatGossip.Json

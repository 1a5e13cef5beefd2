import ThreatGossip.Hash.Hex
import ThreatGossip.Json.Document
import ThreatGossip.Json.Reader
import ThreatGossip.Json.Writer
/-!
JSON formats of values. A format writes a value as a tree and reads it back from any tree that
spells it. A reader walks the tree in text order and stops at the first fault: either the text is no
JSON there, or it is JSON of the wrong shape. Arrays and objects that are read may nest 127 deep.
-/
namespace ThreatGossip.Json

inductive Fault where
  /-- The text is no JSON, or nests too deep, or has a value that cannot be represented. -/
  | malformed
  /-- The text is JSON of the wrong shape. -/
  | misshapen
  /-- An array goes on after the last field of a record. -/
  | surplus
  deriving DecidableEq, Repr

/-- How values of a type are written as JSON and read again; `room` is how deep the arrays and
objects of a tree may still nest. -/
structure Format (α : Type) where
  write : α → Tree
  read : (room : Nat) → Tree → Except Fault α

namespace Tree

def fault : Tree → Fault
  | .flawed => .malformed
  | .broken => .malformed
  | _ => .misshapen

end Tree

def maxDepth : Nat := 127

namespace Format

variable {α β : Type}

def encode (f : Format α) (a : α) : String := (f.write a).text

/-- Reads a value off the front of a text, whatever follows it. -/
def decodeFront (f : Format α) (text : String) : Except Fault α :=
  f.read maxDepth (Tree.ofChars text.toList).1

/-- Reads a whole text; only blanks may follow the value. -/
def decode (f : Format α) (text : String) : Except Fault α :=
  match Tree.ofChars text.toList with
  | (t, rest) => do
    let a ← f.read maxDepth t
    match rest.map skipBlanks with
    | some [] => .ok a
    | _ => .error .malformed

/-- The format of `β` through that of `α`: what is read is made a `β`, and a `β` is written by its
view. -/
def imap (f : Format α) (of : α → β) (view : β → α) : Format β where
  write b := f.write (view b)
  read room t := (f.read room t).map of

def string : Format String where
  write := .string
  read _
    | .string s => .ok s
    | t => .error t.fault

def between (low high : Int) : Format Int where
  write i := .number (.integer i)
  read _
    | .number (.integer i) => if low ≤ i ∧ i ≤ high then .ok i else .error .misshapen
    | t => .error t.fault

def below (bound : Nat) : Format Nat := (between 0 (bound - 1)).imap Int.toNat Int.ofNat

def count : Format UInt64 := (below UInt64.size).imap UInt64.ofNat UInt64.toNat

def word32 : Format UInt32 := (below UInt32.size).imap UInt32.ofNat UInt32.toNat

/-- Doubles; an integer stands for the nearest one. -/
def double : Format Float where
  write x := .number (.double x)
  read _
    | .number (.double x) => .ok x
    | .number (.integer i) => .ok (Float.ofInt i)
    | t => .error t.fault

def bytes : Format (List UInt8) where
  write b := .string (Hex.encode b)
  read _
    | .string s => match Hex.decode? s with
      | some b => .ok b
      | none => .error .misshapen
    | t => .error t.fault

def nullable (f : Format α) : Format (Option α) where
  write
    | some a => f.write a
    | none => .null
  read room
    | .null => .ok none
    | t => (f.read room t).map some

def document : Format Document where
  write d := d.tree
  read room t := if t.legible room then .ok (.ofTree t) else .error .malformed

def readItems (read : Tree → Except Fault α) : List Tree → Except Fault (List α)
  | [] => .ok []
  | t :: ts => do
    let a ← read t
    let as ← readItems read ts
    .ok (a :: as)

/-- Members read one after the other; each name is read before its value. -/
def readMembers (read : Tree → Except Fault β) :
    List (Name × Tree) → Except Fault (List (String × β))
  | [] => .ok []
  | (name, t) :: ms =>
    match name.text? with
    | none => .error .malformed
    | some name => do
      let b ← read t
      let bs ← readMembers read ms
      .ok ((name, b) :: bs)

def list (f : Format α) : Format (List α) where
  write as := .list (as.map f.write)
  read
    | 0, .array _ _ => .error .malformed
    | room + 1, .array items closed => do
      let as ← readItems (f.read room) items
      if closed then .ok as else .error .malformed
    | _, t => .error t.fault

/-- Objects with any member names; of a repeated name the last value counts. -/
def members (f : Format β) : Format (List (String × β)) where
  write ms := .record (ms.map fun m => (m.1, f.write m.2))
  read
    | 0, .object _ _ => .error .malformed
    | room + 1, .object ms closed => do
      let ms ← readMembers (f.read room) ms
      if closed then .ok ms else .error .malformed
    | _, t => .error t.fault

def map (f : Format β) : Format (SortedMap String β) :=
  (members f).imap SortedMap.ofList SortedMap.entries

def set : Format (SortedSet String) := (list string).imap SortedSet.ofList SortedMap.keys

/-- An integer that a member name spells in decimal, without escapes; its value is looked at before
what may follow it. -/
def keyInteger (spelling : List Char) : Except Fault Int :=
  match Number.Numeral.scan spelling with
  | none => .error .malformed
  | some (n, rest) =>
    match n.value with
    | none => .error .malformed
    | some (.double _) => .error .misshapen
    | some (.integer i) =>
      if i < minSigned ∨ maxSigned < i then .error .misshapen
      else if rest = [] then .ok i
      else .error .malformed

/-- Members whose names are integers; each name is checked before its value is read. -/
def readIntegerMembers (read : Tree → Except Fault β) :
    List (Name × Tree) → Except Fault (List (Int × β))
  | [] => .ok []
  | (name, t) :: ms => do
    let i ← keyInteger name.spelling
    let b ← read t
    let bs ← readIntegerMembers read ms
    .ok ((i, b) :: bs)

/-- Objects whose member names are 64-bit integers in decimal. -/
def integerMap (f : Format β) : Format (SortedMap Int β) where
  write m := .record (m.entries.map fun e =>
    (String.ofList (Number.text (.integer e.1)), f.write e.2))
  read
    | 0, .object _ _ => .error .malformed
    | room + 1, .object ms closed => do
      let ms ← readIntegerMembers (f.read room) ms
      if closed then .ok (.ofList ms) else .error .malformed
    | _, t => .error t.fault

/-- One of finitely many names: a string, or an object with the name as its only member and `null`
under it. -/
def choice (names : List (String × α)) (name : α → String) : Format α where
  write a := .string (name a)
  read
    | _, .string s => match names.lookup s with
      | some a => .ok a
      | none => .error .misshapen
    | 0, .object _ _ => .error .malformed
    | _, .object ((⟨none, _⟩, _) :: _) _ => .error .malformed
    | _, .object ((⟨some s, _⟩, t) :: rest) closed =>
      match names.lookup s with
      | none => .error .misshapen
      | some a => match t with
        | .null => if rest.isEmpty ∧ closed then .ok a else .error .malformed
        | t => .error t.fault
    | _, _ => .error .malformed

end Format

end ThreatGossip.Json

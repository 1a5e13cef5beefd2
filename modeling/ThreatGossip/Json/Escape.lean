/-!
Strings of a JSON text. Written strings escape the quote, the backslash and control characters,
and nothing else. Read strings may hold any escape; one with half a surrogate pair is well written
but names no text.
-/
namespace ThreatGossip.Json

def hexDigit (n : Nat) : Char := if n < 10 then Char.ofNat (48 + n) else Char.ofNat (87 + n)

def hexValue? (c : Char) : Option Nat :=
  if '0' ≤ c ∧ c ≤ '9' then some (c.toNat - 48)
  else if 'a' ≤ c ∧ c ≤ 'f' then some (c.toNat - 87)
  else if 'A' ≤ c ∧ c ≤ 'F' then some (c.toNat - 55)
  else none

def escapeChar (c : Char) : List Char :=
  if c = '"' then ['\\', '"']
  else if c = '\\' then ['\\', '\\']
  else if c = '\n' then ['\\', 'n']
  else if c = '\r' then ['\\', 'r']
  else if c = '\t' then ['\\', 't']
  else if c = '\x08' then ['\\', 'b']
  else if c = '\x0c' then ['\\', 'f']
  else if c.toNat < 0x20 then
    ['\\', 'u', '0', '0', hexDigit (c.toNat / 16), hexDigit (c.toNat % 16)]
  else [c]

/-- A string with its quotes, in front of `rest`. -/
def quoteOnto (s : List Char) (rest : List Char) : List Char :=
  '"' :: s.foldr (fun c r => escapeChar c ++ r) ('"' :: rest)

/-- The characters of a string up to its first quote, escapes as they are written. -/
def spellingOf (s : List Char) : List Char := (s.flatMap escapeChar).takeWhile (· ≠ '"')

def shortEscape? (c : Char) : Option Nat :=
  match c with
  | '"' => some 0x22
  | '\\' => some 0x5c
  | '/' => some 0x2f
  | 'b' => some 0x08
  | 'f' => some 0x0c
  | 'n' => some 0x0a
  | 'r' => some 0x0d
  | 't' => some 0x09
  | _ => none

def fourHex? (a b c d : Char) : Option Nat := do
  let a ← hexValue? a
  let b ← hexValue? b
  let c ← hexValue? c
  let d ← hexValue? d
  some (((a * 16 + b) * 16 + c) * 16 + d)

/-- The rest of a string after its opening quote, as code points and halves of surrogate pairs in
reverse; nothing when it is not well written or does not end. -/
def scanQuoted (read : List Nat) : List Char → Option (List Nat × List Char)
  | '"' :: rest => some (read, rest)
  | '\\' :: 'u' :: a :: b :: c :: d :: rest =>
    match fourHex? a b c d with
    | some n => scanQuoted (n :: read) rest
    | none => none
  | '\\' :: c :: rest =>
    match shortEscape? c with
    | some n => scanQuoted (n :: read) rest
    | none => none
  | c :: rest => if c.toNat < 0x20 ∨ c = '\\' then none else scanQuoted (c.toNat :: read) rest
  | [] => none

def isHighHalf (n : Nat) : Bool := 0xd800 ≤ n && n < 0xdc00

def isLowHalf (n : Nat) : Bool := 0xdc00 ≤ n && n < 0xe000

/-- Joins the halves of surrogate pairs, given in reverse, in front of `text`; nothing when one
stands alone. -/
def joinHalves (text : List Char) : List Nat → Option (List Char)
  | [] => some text
  | n :: rest =>
    if isHighHalf n then none
    else if isLowHalf n then
      match rest with
      | high :: rest =>
        if isHighHalf high then
          joinHalves (Char.ofNat (0x10000 + (high - 0xd800) * 0x400 + (n - 0xdc00)) :: text) rest
        else none
      | [] => none
    else joinHalves (Char.ofNat n :: text) rest

end ThreatGossip.Json

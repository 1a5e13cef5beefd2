import ThreatGossip.Count
import ThreatGossip.Decimal.Shortest
/-!
Numbers of a JSON text. An integer of the 64-bit ranges keeps its value; every other number is a
double. The significand is read into 64 bits and scaled by powers of ten in double arithmetic, so a
long decimal may land beside the nearest double. Doubles are written with the fewest digits that
identify them.
-/
namespace ThreatGossip.Json

inductive Number where
  | integer (i : Int)
  | double (x : Float)
  deriving DecidableEq

namespace Number

/-- Numbers that compare equal; an integer never equals a double. -/
def alike : Number → Number → Bool
  | integer i, integer j => i == j
  | double x, double y => x == y
  | _, _ => false

structure Numeral where
  negative : Bool
  whole : List Char
  fraction : Option (List Char)
  exponent : Option (Bool × List Char)

namespace Numeral

def digits (cs : List Char) : Option (List Char × List Char) :=
  match cs.takeWhile Char.isDigit with
  | [] => none
  | ds => some (ds, cs.dropWhile Char.isDigit)

def fraction? : List Char → Option (Option (List Char) × List Char)
  | '.' :: cs => (digits cs).map fun (ds, rest) => (some ds, rest)
  | cs => some (none, cs)

/-- An exponent, if one stands here; its sign is `true` when negative. -/
def exponent? : List Char → Option (Option (Bool × List Char) × List Char)
  | c :: cs =>
    if c = 'e' ∨ c = 'E' then
      let (negative, cs) := match cs with
        | '-' :: cs => (true, cs)
        | '+' :: cs => (false, cs)
        | cs => (false, cs)
      (digits cs).map fun (ds, rest) => (some (negative, ds), rest)
    else some (none, c :: cs)
  | [] => some (none, [])

/-- Splits a numeral off the front; a leading zero stands alone. -/
def scan (cs : List Char) : Option (Numeral × List Char) := do
  let (negative, cs) := match cs with
    | '-' :: cs => (true, cs)
    | cs => (false, cs)
  let (whole, cs) ← digits cs
  if whole.head? = some '0' ∧ whole.length ≠ 1 then none
  let (fraction, cs) ← fraction? cs
  let (exponent, cs) ← exponent? cs
  some (⟨negative, whole, fraction, exponent⟩, cs)

/-- Reads digits onto a significand for as long as it fits 64 bits. -/
def gather (significand : Nat) : List Char → Nat × List Char
  | [] => (significand, [])
  | c :: cs =>
    let next := significand * 10 + (c.toNat - '0'.toNat)
    if next < UInt64.size then gather next cs else (significand, c :: cs)

def power (n : Nat) : Float := Float.ofScientific 1 false n

/-- Divides by a power of ten; a power beyond `10 ^ 308` is taken in steps. -/
def scaleDown (x : Float) (n : Nat) : Float :=
  if n ≤ 308 then x / power n
  else if x == 0 then x
  else scaleDown (x / power 308) (n - 308)
termination_by n

/-- Multiplies by a power of ten; nothing when the result is beyond the doubles. -/
def scaleUp (x : Float) (n : Nat) : Option Float :=
  if n ≤ 308 then
    let y := x * power n
    if y.isInf then none else some y
  else if x == 0 then some x
  else none

def scale (significand : Nat) (exponent : Int) : Option Float :=
  let x := Float.ofNat significand
  if 0 ≤ exponent then scaleUp x exponent.toNat else some (scaleDown x (-exponent).toNat)

def signed (negative : Bool) (x : Float) : Number := .double (if negative then -x else x)

/-- An integer as written: kept when it fits 64 bits, and a double otherwise, which `-0` is too. -/
def ofWhole (negative : Bool) (significand : Nat) : Number :=
  if !negative then .integer significand
  else if significand = 0 ∨ -(significand : Int) < minSigned then
    signed true (Float.ofNat significand)
  else .integer (-significand)

/-- The value of an exponent's digits; nothing when it does not fit a signed 32-bit number. -/
def exponentValue (ds : List Char) : Option Nat :=
  let ds := ds.dropWhile (· == '0')
  if ds.length ≤ 10 then
    let n := Nat.ofDigitChars 10 ds 0
    if n < 2147483648 then some n else none
  else none

/-- The number written, or nothing when it is beyond the doubles. -/
def value (n : Numeral) : Option Number :=
  let (significand, left) := gather 0 n.whole
  match left, n.fraction, n.exponent with
  | [], none, none => some (ofWhole n.negative significand)
  | left, fraction, exponent =>
    let ds := fraction.getD []
    let (significand, unread) := gather significand ds
    let shift : Int := (left.length : Int) - (ds.length - unread.length : Nat)
    let scaled := match exponent with
      | none => scale significand shift
      | some (negative, es) =>
        match exponentValue es with
        | some e => scale significand (if negative then shift - e else shift + e)
        | none => if significand ≠ 0 ∧ !negative then none else some 0
    scaled.map (signed n.negative)

end Numeral

/-- Decimal exponents of the leading digit that are written without an exponent part. -/
def positional (e : Int) : Bool := -5 ≤ e && e ≤ 15

def decimalText (s : Decimal.Scaled) : List Char :=
  let ds := Nat.toDigits 10 s.digits
  let trimmed := (ds.reverse.dropWhile (· == '0')).reverse
  let e : Int := s.exponent + ds.length - 1
  if positional e then
    if e < 0 then
      '0' :: '.' :: List.replicate (-e - 1).toNat '0' ++ trimmed
    else
      let n := e.toNat + 1
      let whole := trimmed.take n ++ List.replicate (n - trimmed.length) '0'
      let rest := trimmed.drop n
      whole ++ '.' :: (if rest.isEmpty then ['0'] else rest)
  else
    let tail := match trimmed with
      | d :: [] => [d]
      | d :: rest => d :: '.' :: rest
      | [] => []
    tail ++ 'e' :: (if e < 0 then '-' else '+') :: Nat.toDigits 10 e.natAbs

/-- The text of a double; what is no number is `null`. -/
def doubleText (x : Float) : List Char :=
  let bits := x.toBits
  if Decimal.Binary.field bits = 2047 then "null".toList
  else
    let magnitude := bits.toNat % Decimal.Binary.signUnit
    let digits := if magnitude = 0 then "0.0".toList
      else decimalText (Decimal.shortest (UInt64.ofNat magnitude))
    if bits.toNat < Decimal.Binary.signUnit then digits else '-' :: digits

def text : Number → List Char
  | integer i => if i < 0 then '-' :: Nat.toDigits 10 i.natAbs else Nat.toDigits 10 i.natAbs
  | double x => doubleText x

end Number

end ThreatGossip.Json

/-!
The shortest decimal of a double: of all decimals that round to it, the one with the fewest digits,
and of those the nearest. Everything is decided in exact integer arithmetic.
-/
namespace ThreatGossip.Decimal

structure Scaled where
  digits : Nat
  exponent : Int
  deriving DecidableEq, Repr

/-- The binary form of a positive finite double: `mantissa · 2 ^ exponent`. -/
structure Binary where
  mantissa : Nat
  exponent : Int
  deriving DecidableEq, Repr

namespace Binary

/-- Where the exponent field of a double begins: two to the fifty-second. -/
def fieldUnit : Nat := 4503599627370496

/-- Where the sign of a double stands: two to the sixty-third. -/
def signUnit : Nat := 9223372036854775808

def field (bits : UInt64) : Nat := bits.toNat % signUnit / fieldUnit

def ofBits (bits : UInt64) : Binary :=
  let fraction := bits.toNat % fieldUnit
  if field bits = 0 then ⟨fraction, -1074⟩
  else ⟨fieldUnit + fraction, (field bits : Int) - 1075⟩

end Binary

structure Ratio where
  num : Nat
  den : Nat

def Ratio.scaled2 (n : Nat) (e : Int) : Ratio :=
  ⟨n * Nat.pow 2 e.toNat, Nat.pow 2 (-e).toNat⟩

def Ratio.le (a b : Ratio) : Bool := a.num * b.den ≤ b.num * a.den

def Ratio.lt (a b : Ratio) : Bool := a.num * b.den < b.num * a.den

/-- The reals that round to a double; its ends belong to it when the mantissa is even. -/
structure Interval where
  low : Ratio
  high : Ratio
  closed : Bool

/-- Halfway to either neighbour; below a power of two the lower one is only half as far. -/
def Binary.interval (b : Binary) : Interval :=
  let lowGap := if b.mantissa = fieldUnit ∧ -1074 < b.exponent then 1 else 2
  ⟨.scaled2 (4 * b.mantissa - lowGap) (b.exponent - 2),
    .scaled2 (4 * b.mantissa + 2) (b.exponent - 2), b.mantissa % 2 = 0⟩

def Interval.contains (i : Interval) (x : Ratio) : Bool :=
  if i.closed then i.low.le x && x.le i.high else i.low.lt x && x.lt i.high

def digitCount (n : Nat) : Nat := (Nat.toDigits 10 n).length

def Ratio.magnitude (r : Ratio) : Int :=
  if r.den ≤ r.num then (digitCount (r.num / r.den) : Int) - 1
  else -(digitCount ((r.den - 1) / r.num) : Int)

def Scaled.ratio (s : Scaled) : Ratio :=
  ⟨s.digits * Nat.pow 10 s.exponent.toNat, Nat.pow 10 (-s.exponent).toNat⟩

/-- Of the two neighbours of `r` on the grid of `n` digits, the one that lies in the interval; of
both the nearer, and at a tie the even one. -/
def onGrid (i : Interval) (r : Ratio) (n : Nat) : Option Scaled :=
  let step : Int := r.magnitude - n + 1
  let num := r.num * Nat.pow 10 (-step).toNat
  let den := r.den * Nat.pow 10 step.toNat
  let below := num / den
  let down : Scaled := ⟨below, step⟩
  let up : Scaled := ⟨below + 1, step⟩
  match i.contains down.ratio, i.contains up.ratio with
  | true, true =>
    let twice := 2 * (num - below * den)
    if twice < den ∨ (twice = den ∧ below % 2 = 0) then some down else some up
  | true, false => some down
  | false, true => some up
  | false, false => none

/-- Seventeen digits always reach the interval, so the search does not run out. -/
def shortest (bits : UInt64) : Scaled :=
  let b := Binary.ofBits bits
  let r := Ratio.scaled2 b.mantissa b.exponent
  ((List.range' 1 17).findSome? (onGrid b.interval r)).getD ⟨0, 0⟩

end ThreatGossip.Decimal

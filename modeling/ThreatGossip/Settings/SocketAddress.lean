/-!
Addresses to listen on: an IPv4 address or an IPv6 address in brackets, with a port. Written IPv6
addresses are in their canonical short form.
-/
namespace ThreatGossip

inductive SocketAddress where
  | v4 (a b c d : Nat) (port : Nat)
  | v6 (groups : List Nat) (scope : Nat) (port : Nat)
  deriving DecidableEq, Repr

namespace SocketAddress

def digit? (base : Nat) (c : Char) : Option Nat :=
  let d := if '0' ≤ c ∧ c ≤ '9' then c.toNat - 48
    else if 'a' ≤ c ∧ c ≤ 'f' then c.toNat - 87
    else if 'A' ≤ c ∧ c ≤ 'F' then c.toNat - 55
    else base
  if d < base then some d else none

/-- A number below `bound` at the front: all digits there are, at least one and at most `most` of
them; only with `zeros` may it start with a zero that it does not need. -/
def number? (base bound most : Nat) (zeros : Bool) (cs : List Char) : Option (Nat × List Char) :=
  let ds := (cs.takeWhile fun c => (digit? base c).isSome).filterMap (digit? base)
  let n := ds.foldl (fun n d => n * base + d) 0
  if ds.isEmpty ∨ most < ds.length ∨ bound ≤ n then none
  else if ds.head? = some 0 ∧ 1 < ds.length ∧ !zeros then none
  else some (n, cs.drop ds.length)

def expect? (c : Char) : List Char → Option (List Char)
  | d :: cs => if c = d then some cs else none
  | [] => none

def ipv4? (cs : List Char) : Option ((Nat × Nat × Nat × Nat) × List Char) := do
  let (a, cs) ← number? 10 256 3 false cs
  let cs ← expect? '.' cs
  let (b, cs) ← number? 10 256 3 false cs
  let cs ← expect? '.' cs
  let (c, cs) ← number? 10 256 3 false cs
  let cs ← expect? '.' cs
  let (d, cs) ← number? 10 256 3 false cs
  some ((a, b, c, d), cs)

/-- Up to `limit` groups of an IPv6 address with colons between them, and whether the last two came
from an IPv4 address. -/
def groups (limit : Nat) : (first : Bool) → List Char → List Nat × Bool × List Char
  | first, cs =>
    match limit with
    | 0 => ([], false, cs)
    | limit + 1 =>
      let start := if first then some cs else expect? ':' cs
      match limit, start.bind ipv4? with
      | _ + 1, some ((a, b, c, d), rest) => ([a * 256 + b, c * 256 + d], true, rest)
      | _, _ =>
        match start.bind (number? 16 65536 4 true) with
        | some (g, rest) =>
          let (gs, embedded, rest) := groups limit false rest
          (g :: gs, embedded, rest)
        | none => ([], false, cs)

/-- Eight groups, or fewer with a double colon for those left out. -/
def ipv6? (cs : List Char) : Option (List Nat × List Char) :=
  let (head, embedded, rest) := groups 8 true cs
  if head.length = 8 then some (head, rest)
  else if embedded then none
  else match rest with
    | ':' :: ':' :: rest =>
      let (tail, _, rest) := groups (7 - head.length) true rest
      some (head ++ List.replicate (8 - head.length - tail.length) 0 ++ tail, rest)
    | _ => none

def port? (cs : List Char) : Option Nat :=
  match (expect? ':' cs).bind (number? 10 65536 cs.length true) with
  | some (p, []) => some p
  | _ => none

/-- Reads `a.b.c.d:port` or `[address]:port`; a number after a percent sign names the scope. -/
def parse? (s : String) : Option SocketAddress :=
  let cs := s.toList
  match ipv4? cs with
  | some ((a, b, c, d), rest) => (port? rest).map (.v4 a b c d)
  | none => do
    let cs ← expect? '[' cs
    let (gs, cs) ← ipv6? cs
    let (scope, cs) ← match cs with
      | '%' :: cs => number? 10 UInt32.size cs.length true cs
      | cs => some (0, cs)
    let cs ← expect? ']' cs
    (port? cs).map (.v6 gs scope)

def zeroRun (gs : List Nat) : Nat := (gs.takeWhile (· == 0)).length

/-- Where the first of the longest runs of zeros starts, and its length. -/
def longestZeros (gs : List Nat) : Nat × Nat :=
  (List.range gs.length).foldl (fun best i =>
    let n := zeroRun (gs.drop i)
    if best.2 < n then (i, n) else best) (0, 0)

def hexGroups (gs : List Nat) : String :=
  ":".intercalate (gs.map fun g => String.ofList (Nat.toDigits 16 g))

def dotted (a b c d : Nat) : String := ".".intercalate ([a, b, c, d].map toString)

/-- The canonical form: the longest run of two or more zero groups becomes a double colon, and a
mapped IPv4 address keeps its points. -/
def ipv6Text (gs : List Nat) : String :=
  match gs with
  | [0, 0, 0, 0, 0, 0xffff, x, y] =>
    "::ffff:" ++ dotted (x / 256) (x % 256) (y / 256) (y % 256)
  | gs =>
    let (start, length) := longestZeros gs
    if 1 < length then hexGroups (gs.take start) ++ "::" ++ hexGroups (gs.drop (start + length))
    else hexGroups gs

def text : SocketAddress → String
  | v4 a b c d port => dotted a b c d ++ ":" ++ toString port
  | v6 gs scope port =>
    "[" ++ ipv6Text gs ++ (if scope = 0 then "" else "%" ++ toString scope) ++ "]:" ++ toString port

end SocketAddress

end ThreatGossip

/-!
Bytes as UTF-8 text. Every run of bytes that cannot be part of a character is one gap, so a lenient
reader can put a replacement there and a strict one can refuse.
-/
namespace ThreatGossip.Utf8

/-- A character that has begun: its value so far, how many bytes are missing, and the range of the
next one. -/
structure Partial where
  value : Nat
  missing : Nat
  low : Nat
  high : Nat

/-- A byte where a character may begin: a character, a gap, or a beginning. -/
def begin (b : Nat) : List (Option Char) × Option Partial :=
  if b < 0x80 then ([some (Char.ofNat b)], none)
  else if b < 0xc2 then ([none], none)
  else if b < 0xe0 then ([], some ⟨b - 0xc0, 1, 0x80, 0xbf⟩)
  else if b < 0xf0 then
    ([], some ⟨b - 0xe0, 2, if b = 0xe0 then 0xa0 else 0x80, if b = 0xed then 0x9f else 0xbf⟩)
  else if b < 0xf5 then
    ([], some ⟨b - 0xf0, 3, if b = 0xf0 then 0x90 else 0x80, if b = 0xf4 then 0x8f else 0xbf⟩)
  else ([none], none)

/-- The characters of the bytes, after what has begun before them; `none` is a gap. -/
def decode : Option Partial → List UInt8 → List (Option Char)
  | none, [] => []
  | some _, [] => [none]
  | none, b :: rest =>
    let (chars, next) := begin b.toNat
    chars ++ decode next rest
  | some p, b :: rest =>
    let n := b.toNat
    if p.low ≤ n ∧ n ≤ p.high then
      let value := p.value * 64 + (n - 0x80)
      if p.missing = 1 then some (Char.ofNat value) :: decode none rest
      else decode (some ⟨value, p.missing - 1, 0x80, 0xbf⟩) rest
    else
      let (chars, next) := begin n
      none :: (chars ++ decode next rest)

def strict? (bytes : List UInt8) : Option String :=
  ((decode none bytes).mapM id).map String.ofList

/-- The text of the bytes, with U+FFFD in every gap. -/
def lenient (bytes : List UInt8) : String :=
  String.ofList ((decode none bytes).map (·.getD '\ufffd'))

end ThreatGossip.Utf8

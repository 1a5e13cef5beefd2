import ThreatGossip.Json.Escape
/-!
Bytes as hexadecimal text: two lower-case digits a byte when written, digits of either case when
read.
-/
namespace ThreatGossip.Hex

def encode (bytes : List UInt8) : String :=
  String.ofList <| bytes.flatMap fun b =>
    [Json.hexDigit (b.toNat / 16), Json.hexDigit (b.toNat % 16)]

/-- The bytes of a text of hexadecimal digits; nothing at an odd length or another character. -/
def decodeChars : List Char → Option (List UInt8)
  | [] => some []
  | [_] => none
  | a :: b :: rest => do
    let a ← Json.hexValue? a
    let b ← Json.hexValue? b
    let rest ← decodeChars rest
    some (UInt8.ofNat (a * 16 + b) :: rest)

def decode? (s : String) : Option (List UInt8) := decodeChars s.toList

end ThreatGossip.Hex

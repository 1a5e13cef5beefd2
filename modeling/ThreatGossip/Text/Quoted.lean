import ThreatGossip.Text.Unprintable
/-!
Texts quoted for a reader of messages: between double quotes, with everything that cannot be seen
spelled out.
-/
namespace ThreatGossip.Text

/-- A code point in hexadecimal, as `\u{301}` without the quotes. -/
def spellOut (c : Char) : List Char :=
  '\\' :: 'u' :: '{' :: Nat.toDigits 16 c.toNat ++ ['}']

def quoteChar (c : Char) : List Char :=
  if c = '"' then ['\\', '"']
  else if c = '\\' then ['\\', '\\']
  else if c = '\n' then ['\\', 'n']
  else if c = '\r' then ['\\', 'r']
  else if c = '\t' then ['\\', 't']
  else if c.toNat = 0 then ['\\', '0']
  else if isUnprintable c then spellOut c
  else [c]

def quote (s : String) : String := String.ofList ('"' :: s.toList.flatMap quoteChar ++ ['"'])

end ThreatGossip.Text

import ThreatGossip.Json.Escape
import ThreatGossip.Text.Utf8
/-!
Request targets: a path and a query, perhaps after a scheme and an authority. In path and query, `%`
with two hexadecimal digits stands for a byte, and any other `%` for itself; in a query, `+` stands
for a blank.
-/
namespace ThreatGossip.Http

def percentDecode : List Char → List UInt8
  | '%' :: a :: b :: rest =>
    match Json.hexValue? a, Json.hexValue? b with
    | some x, some y => UInt8.ofNat (x * 16 + y) :: percentDecode rest
    | _, _ => 0x25 :: percentDecode (a :: b :: rest)
  | c :: rest => (String.singleton c).toUTF8.toList ++ percentDecode rest
  | [] => []

def splitOn (separator : Char) : List Char → List (List Char)
  | [] => [[]]
  | c :: rest =>
    if c = separator then [] :: splitOn separator rest
    else match splitOn separator rest with
      | piece :: pieces => (c :: piece) :: pieces
      | [] => [[c]]

structure Target where
  path : List Char
  query : List Char

/-- What follows a scheme and an authority, if a target begins with them: a path from its first
slash on, by default the root, and a query. -/
def afterAuthority? (cs : List Char) : Option (List Char) :=
  match cs.dropWhile fun c => c.isAlphanum || c == '+' || c == '-' || c == '.' with
  | ':' :: '/' :: '/' :: rest =>
    match rest.dropWhile fun c => c != '/' && c != '?' with
    | '/' :: path => some ('/' :: path)
    | query => some ('/' :: query)
  | _ => none

/-- Splits at the first question mark; a fragment is dropped. -/
def Target.ofString (s : String) : Target :=
  let cs := s.toList.takeWhile (· != '#')
  let cs := (afterAuthority? cs).getD cs
  ⟨cs.takeWhile (· != '?'), (cs.dropWhile (· != '?')).drop 1⟩

/-- The parts of a path between slashes; nothing when it does not begin with one. -/
def Target.segments (t : Target) : Option (List String) :=
  match t.path with
  | '/' :: rest => some ((splitOn '/' rest).map String.ofList)
  | _ => none

def queryText (cs : List Char) : String :=
  Utf8.lenient (percentDecode (cs.map fun c => if c = '+' then ' ' else c))

def Target.fields (t : Target) : List (String × String) :=
  ((splitOn '&' t.query).filter (!·.isEmpty)).map fun piece =>
    (queryText (piece.takeWhile (· != '=')), queryText ((piece.dropWhile (· != '=')).drop 1))

/-- The value of a name that occurs exactly once. -/
def Target.field? (t : Target) (name : String) : Option String :=
  match t.fields.filter (·.1 == name) with
  | [(_, value)] => some value
  | _ => none

end ThreatGossip.Http

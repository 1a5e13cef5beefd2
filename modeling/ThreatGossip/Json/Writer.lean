import ThreatGossip.Json.Escape
import ThreatGossip.Json.Tree
/-!
The compact text of a tree: no blanks, members in the order they stand in.
-/
namespace ThreatGossip.Json.Tree

mutual

/-- The text of a tree in front of `rest`. -/
def onto : Tree → List Char → List Char
  | .null, rest => 'n' :: 'u' :: 'l' :: 'l' :: rest
  | .boolean true, rest => 't' :: 'r' :: 'u' :: 'e' :: rest
  | .boolean false, rest => 'f' :: 'a' :: 'l' :: 's' :: 'e' :: rest
  | .number n, rest => n.text ++ rest
  | .string s, rest => quoteOnto s.toList rest
  | .array [] _, rest => '[' :: ']' :: rest
  | .array (t :: ts) _, rest => '[' :: t.onto (itemsOnto ts rest)
  | .object [] _, rest => '{' :: '}' :: rest
  | .object ((name, t) :: ms) _, rest =>
    '{' :: quoteOnto (name.text?.getD "").toList (':' :: t.onto (membersOnto ms rest))
  | .flawed, rest => rest
  | .broken, rest => rest

def itemsOnto : List Tree → List Char → List Char
  | [], rest => ']' :: rest
  | t :: ts, rest => ',' :: t.onto (itemsOnto ts rest)

def membersOnto : List (Name × Tree) → List Char → List Char
  | [], rest => '}' :: rest
  | (name, t) :: ms, rest =>
    ',' :: quoteOnto (name.text?.getD "").toList (':' :: t.onto (membersOnto ms rest))

end

/-- The compact text of a tree. -/
def text (t : Tree) : String := String.ofList (t.onto [])

end ThreatGossip.Json.Tree

import ThreatGossip.Json.Escape
import ThreatGossip.Json.Number
/-!
JSON texts as trees. A tree keeps a text as it stands: members in their order, repeated ones
included, and the place where the text stops being JSON. A reader of some shape walks the tree in
text order, so whichever fault stands first in the text is the one it meets first.
-/
namespace ThreatGossip.Json

/-- The name of a member: its text, unless it holds half a surrogate pair or breaks off, and its
spelling up to the next quote, escapes as they are written. -/
structure Name where
  text? : Option String
  spelling : List Char
  deriving DecidableEq, Inhabited

namespace Name

/-- The name with a text, as it is written. -/
def ofString (s : String) : Name := ⟨some s, spellingOf s.toList⟩

@[simp] theorem text?_ofString (s : String) : (ofString s).text? = some s := rfl

end Name

/-- The JSON of a text, as far as it goes. -/
inductive Tree where
  | null
  | boolean (b : Bool)
  | number (n : Number)
  | string (s : String)
  /-- Items in order; `closed` when the bracket was found. -/
  | array (items : List Tree) (closed : Bool)
  /-- Members in order; `closed` when the brace was found. -/
  | object (members : List (Name × Tree)) (closed : Bool)
  /-- A string with half a surrogate pair, or a number beyond the doubles: it may be skipped, but
  has no value. -/
  | flawed
  /-- What stands here is no JSON. -/
  | broken
  deriving Inhabited

namespace Tree

def record (members : List (String × Tree)) : Tree :=
  .object (members.map fun m => (.ofString m.1, m.2)) true

def list (items : List Tree) : Tree := .array items true

mutual

/-- No fault in the text, though there may be values that cannot be read. -/
def whole : Tree → Bool
  | .array items closed => wholeItems items && closed
  | .object members closed => wholeMembers members && closed
  | .broken => false
  | _ => true

def wholeItems : List Tree → Bool
  | [] => true
  | t :: ts => t.whole && wholeItems ts

def wholeMembers : List (Name × Tree) → Bool
  | [] => true
  | (_, t) :: ms => t.whole && wholeMembers ms

end

mutual

/-- Every value can be read, and arrays and objects nest at most `room` deep. -/
def legible (room : Nat) : Tree → Bool
  | .array items closed => 0 < room && legibleItems (room - 1) items && closed
  | .object members closed => 0 < room && legibleMembers (room - 1) members && closed
  | .flawed => false
  | .broken => false
  | _ => true

def legibleItems (room : Nat) : List Tree → Bool
  | [] => true
  | t :: ts => t.legible room && legibleItems room ts

def legibleMembers (room : Nat) : List (Name × Tree) → Bool
  | [] => true
  | (name, t) :: ms => name.text?.isSome && t.legible room && legibleMembers room ms

end

mutual

def depth : Tree → Nat
  | .array items _ => depthItems items + 1
  | .object members _ => depthMembers members + 1
  | _ => 0

def depthItems : List Tree → Nat
  | [] => 0
  | t :: ts => max t.depth (depthItems ts)

def depthMembers : List (Name × Tree) → Nat
  | [] => 0
  | (_, t) :: ms => max t.depth (depthMembers ms)

end

end Tree

end ThreatGossip.Json

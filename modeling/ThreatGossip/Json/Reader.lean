import ThreatGossip.Json.Escape
import ThreatGossip.Json.Tree
/-!
From text to tree. Reading never fails: where the text stops being JSON the tree says so, and
nothing after that place is looked at.
-/
namespace ThreatGossip.Json

def isBlank (c : Char) : Bool := c == ' ' || c == '\n' || c == '\t' || c == '\r'

def skipBlanks (cs : List Char) : List Char := cs.dropWhile isBlank

/-- The rest after a string's opening quote: its text, if it has one, and what follows. -/
def readQuoted (cs : List Char) : Option (Option String × List Char) :=
  (scanQuoted [] cs).map fun (units, rest) =>
    ((joinHalves [] units).map String.ofList, rest)

def readNumber (cs : List Char) : Tree × Option (List Char) :=
  match Number.Numeral.scan cs with
  | some (n, rest) =>
    match n.value with
    | some n => (.number n, some rest)
    | none => (.flawed, some rest)
  | none => (.broken, none)

mutual

/-- The value at the front and what follows it; nothing follows a place that is no JSON. -/
def readTree : Nat → List Char → Tree × Option (List Char)
  | 0, _ => (.broken, none)
  | fuel + 1, cs =>
    match skipBlanks cs with
    | 'n' :: 'u' :: 'l' :: 'l' :: rest => (.null, some rest)
    | 't' :: 'r' :: 'u' :: 'e' :: rest => (.boolean true, some rest)
    | 'f' :: 'a' :: 'l' :: 's' :: 'e' :: rest => (.boolean false, some rest)
    | '"' :: rest =>
      match readQuoted rest with
      | some (some s, rest) => (.string s, some rest)
      | some (none, rest) => (.flawed, some rest)
      | none => (.broken, none)
    | '[' :: rest =>
      match skipBlanks rest with
      | ']' :: rest => (.array [] true, some rest)
      | rest =>
        let (items, rest) := readItems fuel rest
        (.array items rest.isSome, rest)
    | '{' :: rest =>
      match skipBlanks rest with
      | '}' :: rest => (.object [] true, some rest)
      | rest =>
        let (members, rest) := readMembers fuel rest
        (.object members rest.isSome, rest)
    | rest => readNumber rest

def readItems : Nat → List Char → List Tree × Option (List Char)
  | 0, _ => ([], none)
  | fuel + 1, cs =>
    match readTree fuel cs with
    | (t, none) => ([t], none)
    | (t, some rest) =>
      match skipBlanks rest with
      | ']' :: rest => ([t], some rest)
      | ',' :: rest =>
        let (ts, rest) := readItems fuel rest
        (t :: ts, rest)
      | _ => ([t], none)

def readMembers : Nat → List Char → List (Name × Tree) × Option (List Char)
  | 0, _ => ([], none)
  | fuel + 1, cs =>
    match skipBlanks cs with
    | '"' :: rest =>
      let spelling := rest.takeWhile (· ≠ '"')
      match readQuoted rest with
      | none => ([(⟨none, spelling⟩, .broken)], none)
      | some (text, rest) =>
        let name := ⟨text, spelling⟩
        match skipBlanks rest with
        | ':' :: rest =>
          match readTree fuel rest with
          | (t, none) => ([(name, t)], none)
          | (t, some rest) =>
            match skipBlanks rest with
            | '}' :: rest => ([(name, t)], some rest)
            | ',' :: rest =>
              let (ms, rest) := readMembers fuel rest
              ((name, t) :: ms, rest)
            | _ => ([(name, t)], none)
        | _ => ([(name, .broken)], none)
    | _ => ([], none)

end

/-- A text as a tree with what follows it. Each value takes at most two steps per character. -/
def Tree.ofChars (cs : List Char) : Tree × Option (List Char) := readTree (2 * cs.length + 2) cs

end ThreatGossip.Json

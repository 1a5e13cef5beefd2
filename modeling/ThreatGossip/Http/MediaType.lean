/-!
Media types of request bodies, `type/subtype+suffix; name=value`, of which only JSON matters.
-/
namespace ThreatGossip.Http

def isTokenChar (c : Char) : Bool :=
  c.isAlphanum || ("!#$%&'*+-.^_".toList ++ [Char.ofNat 0x60, '|', '~']).contains c

def isQuotedChar (c : Char) : Bool := 31 < c.toNat && c.toNat < 127

/-- The end of a quoted value, which has at least one character. -/
def quotedEnd? : List Char → Option (List Char)
  | [] => none
  | c :: rest =>
    if isQuotedChar c then
      match rest.dropWhile fun c => c != '"' && isQuotedChar c with
      | '"' :: rest => some rest
      | _ => none
    else none

def validParameters : Nat → List Char → Bool
  | _, [] => true
  | 0, _ => false
  | fuel + 1, ' ' :: rest => validParameters fuel rest
  | fuel + 1, cs =>
    match cs.takeWhile isTokenChar, cs.dropWhile isTokenChar with
    | _ :: _, '=' :: '"' :: rest =>
      match (quotedEnd? rest).map (·.dropWhile (· == ' ')) with
      | some [] => true
      | some (';' :: rest) => validParameters fuel rest
      | _ => false
    | _ :: _, '=' :: rest =>
      match rest.takeWhile isTokenChar, rest.dropWhile isTokenChar with
      | _, [] => true
      | _ :: _, ';' :: rest => validParameters fuel rest
      | _, _ => false
    | _, _ => false

/-- The subtype up to its last plus sign, and the suffix after it. -/
def splitSuffix (subtype : List Char) : List Char × Option (List Char) :=
  let suffix := (subtype.reverse.takeWhile (· != '+')).reverse
  let stem := subtype.take (subtype.length - suffix.length - 1)
  if suffix.length < subtype.length ∧ stem ≠ [] then (stem, some suffix) else (subtype, none)

/-- Whether a content type is `application/json` or has the suffix `json`, in any case and with any
parameters. -/
def isJsonType (contentType : String) : Bool :=
  let cs := contentType.toList.map Char.toLower
  let main := cs.takeWhile isTokenChar
  match cs.dropWhile isTokenChar with
  | '/' :: rest =>
    let subtype := rest.takeWhile isTokenChar
    let parameters := match rest.dropWhile isTokenChar with
      | [] => true
      | ';' :: ps => !subtype.isEmpty && validParameters ps.length ps
      | _ => false
    let (stem, suffix) := splitSuffix subtype
    main == "application".toList && parameters &&
      (stem == "json".toList || suffix == some "json".toList)
  | _ => false

end ThreatGossip.Http

import ThreatGossip.Json.Format
/-!
Requests and responses. A body is a text: requests whose body is not UTF-8 are left out, and nothing
is said of how they are answered.
-/
namespace ThreatGossip.Http

open Json (Tree)

/-- A request; `contentType` is that of the body. -/
structure Request where
  method : String
  target : String
  contentType : Option String
  body : String

/-- The body of a response. `plain` is a text for people, whose wording does not matter. -/
inductive Body where
  | empty
  | plain
  | json (t : Tree)

structure Response where
  status : Nat
  body : Body

namespace Response

def json (status : Nat) (t : Tree) : Response := ⟨status, .json t⟩

def empty (status : Nat) : Response := ⟨status, .empty⟩

def plain (status : Nat) : Response := ⟨status, .plain⟩

def error (status : Nat) (message : String) : Response :=
  json status (.record [("error", .string message)])

def text (r : Response) : String :=
  match r.body with
  | .empty | .plain => ""
  | .json t => t.text

end Response

end ThreatGossip.Http

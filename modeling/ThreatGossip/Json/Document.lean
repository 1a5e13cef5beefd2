import ThreatGossip.Json.Tree
import ThreatGossip.SortedMap.Lemmas
/-!
Free JSON documents. A document is a tree in which everything has a value and the members of every
object stand in ascending order without repeats. Every tree denotes one (`canonical_normalize`), and
a document denotes itself.
-/
namespace ThreatGossip.Json

namespace Tree

/-- Member names that are present and strictly ascending. -/
def NamesAscend (ms : List (Name × Tree)) : Prop :=
  ms.Pairwise fun a b => ∃ x y, a.1 = .ofString x ∧ b.1 = .ofString y ∧ compare x y = .lt

mutual

/-- Everything has a value, and all members stand in ascending order. -/
def Canonical : Tree → Prop
  | .array items closed => CanonicalItems items ∧ closed = true
  | .object members closed =>
    NamesAscend members ∧ CanonicalMembers members ∧ closed = true
  | .flawed => False
  | .broken => False
  | _ => True

def CanonicalItems : List Tree → Prop
  | [] => True
  | t :: ts => t.Canonical ∧ CanonicalItems ts

def CanonicalMembers : List (Name × Tree) → Prop
  | [] => True
  | (name, t) :: ms => (∃ s, name = .ofString s) ∧ t.Canonical ∧ CanonicalMembers ms

end

/-- Sorts members by name; of two with one name the later counts. -/
def sortMembers (ms : List (String × Tree)) : List (Name × Tree) :=
  (SortedMap.ofList ms).entries.map fun m => (.ofString m.1, m.2)

mutual

/-- The document that a legible tree denotes; what has no value counts as `null`. -/
def normalize : Tree → Tree
  | .array items _ => .array (normalizeItems items) true
  | .object members _ => .object (sortMembers (normalizeMembers members)) true
  | .flawed => .null
  | .broken => .null
  | t => t

def normalizeItems : List Tree → List Tree
  | [] => []
  | t :: ts => t.normalize :: normalizeItems ts

def normalizeMembers : List (Name × Tree) → List (String × Tree)
  | [] => []
  | (name, t) :: ms => (name.text?.getD "", t.normalize) :: normalizeMembers ms

end

theorem canonicalMembers_sortMembers {ms : List (String × Tree)} (h : ∀ m ∈ ms, m.2.Canonical) :
    CanonicalMembers (sortMembers ms) := by
  have go : ∀ es : List (String × Tree), (∀ e ∈ es, e.2.Canonical) →
      CanonicalMembers (es.map fun m => (.ofString m.1, m.2)) := by
    intro es
    induction es with
    | nil => exact fun _ => trivial
    | cons e rest ih =>
      exact fun he => ⟨⟨_, rfl⟩, he e (by simp), ih fun f hf => he f (List.mem_cons_of_mem _ hf)⟩
  exact go _ (SortedMap.forall_values_ofList h)

theorem namesAscend_sortMembers (ms : List (String × Tree)) : NamesAscend (sortMembers ms) :=
  List.pairwise_map.mpr <| (SortedMap.ofList ms).ascending.imp fun h => ⟨_, _, rfl, rfl, h⟩

mutual

theorem canonical_normalize : ∀ t : Tree, t.normalize.Canonical
  | .null => trivial
  | .boolean _ => trivial
  | .number _ => trivial
  | .string _ => trivial
  | .flawed => trivial
  | .broken => trivial
  | .array items _ => ⟨canonical_normalizeItems items, rfl⟩
  | .object members _ =>
    ⟨namesAscend_sortMembers _, canonicalMembers_sortMembers (canonical_normalizeMembers members),
      rfl⟩

theorem canonical_normalizeItems : ∀ ts : List Tree, CanonicalItems (normalizeItems ts)
  | [] => trivial
  | t :: ts => ⟨canonical_normalize t, canonical_normalizeItems ts⟩

theorem canonical_normalizeMembers :
    ∀ ms : List (Name × Tree), ∀ m ∈ normalizeMembers ms, m.2.Canonical
  | [], _, h => by simp [normalizeMembers] at h
  | (_, t) :: ms, m, h => by
    rw [normalizeMembers] at h
    rcases List.mem_cons.mp h with rfl | h
    · exact canonical_normalize t
    · exact canonical_normalizeMembers ms m h

end

mutual

/-- Equal up to the sign of zero. -/
def alike : Tree → Tree → Bool
  | .null, .null => true
  | .boolean a, .boolean b => a == b
  | .number a, .number b => a.alike b
  | .string a, .string b => a == b
  | .array as _, .array bs _ => alikeItems as bs
  | .object as _, .object bs _ => alikeMembers as bs
  | _, _ => false

def alikeItems : List Tree → List Tree → Bool
  | [], [] => true
  | a :: as, b :: bs => a.alike b && alikeItems as bs
  | _, _ => false

def alikeMembers : List (Name × Tree) → List (Name × Tree) → Bool
  | [], [] => true
  | (m, a) :: as, (n, b) :: bs => m.text? == n.text? && a.alike b && alikeMembers as bs
  | _, _ => false

end

end Tree

structure Document where
  tree : Tree
  canonical : tree.Canonical

namespace Document

def ofTree (t : Tree) : Document := ⟨t.normalize, t.canonical_normalize⟩

instance : Inhabited Document := ⟨.ofTree .null⟩

def alike (a b : Document) : Bool := a.tree.alike b.tree

def isNull (d : Document) : Bool := match d.tree with
  | .null => true
  | _ => false

def string? (d : Document) (name : String) : Option String :=
  match d.tree with
  | .object members _ =>
    match members.find? (·.1.text? == some name) with
    | some (_, .string s) => some s
    | _ => none
  | _ => none

end Document

end ThreatGossip.Json

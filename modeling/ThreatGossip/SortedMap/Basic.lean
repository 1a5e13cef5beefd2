/-!
Finite maps as lists with strictly ascending keys. The order is part of the type, so a map has one
representation, every listing is already sorted, and what an operation does is said by one look-up
lemma per operation (`SortedMap.Lemmas`).
-/
namespace ThreatGossip

/-- A finite map: its entries, in strictly ascending order of their keys. -/
structure SortedMap (κ β : Type) [Ord κ] where
  entries : List (κ × β)
  ascending : entries.Pairwise fun a b => compare a.1 b.1 = .lt
  deriving DecidableEq

namespace SortedMap

variable {κ β : Type} [Ord κ]

/-- Puts `v` under `k` into an ascending list; a value already there becomes `join old v`. -/
def insertEntry (join : β → β → β) (k : κ) (v : β) : List (κ × β) → List (κ × β)
  | [] => [(k, v)]
  | (l, w) :: rest =>
    match compare k l with
    | .lt => (k, v) :: (l, w) :: rest
    | .eq => (l, join w v) :: rest
    | .gt => (l, w) :: insertEntry join k v rest

def lookUp (k : κ) : List (κ × β) → Option β
  | [] => none
  | (l, w) :: rest => if compare k l = .eq then some w else lookUp k rest

theorem mem_insertEntry {join : β → β → β} {k : κ} {v : β} {es : List (κ × β)} {e : κ × β}
    (h : e ∈ insertEntry join k v es) : e.1 = k ∨ ∃ f ∈ es, e.1 = f.1 := by
  induction es with
  | nil => simp [insertEntry] at h; simp [h]
  | cons f rest ih =>
    obtain ⟨l, w⟩ := f
    rw [insertEntry] at h
    split at h
    · rcases List.mem_cons.mp h with rfl | h
      · exact .inl rfl
      · exact .inr ⟨e, h, rfl⟩
    · rcases List.mem_cons.mp h with rfl | h
      · exact .inr ⟨(l, w), by simp, rfl⟩
      · exact .inr ⟨e, List.mem_cons_of_mem _ h, rfl⟩
    · rcases List.mem_cons.mp h with rfl | h
      · exact .inr ⟨(l, w), by simp, rfl⟩
      · rcases ih h with h | ⟨f, hf, h⟩
        · exact .inl h
        · exact .inr ⟨f, List.mem_cons_of_mem _ hf, h⟩

variable [Std.TransOrd κ]

theorem ascending_insertEntry {join : β → β → β} {k : κ} {v : β} {es : List (κ × β)}
    (h : es.Pairwise fun a b => compare a.1 b.1 = .lt) :
    (insertEntry join k v es).Pairwise fun a b => compare a.1 b.1 = .lt := by
  induction es with
  | nil => simp [insertEntry]
  | cons f rest ih =>
    obtain ⟨l, w⟩ := f
    rw [List.pairwise_cons] at h
    rw [insertEntry]
    split
    next hc =>
      refine List.pairwise_cons.mpr ⟨fun e he => ?_, List.pairwise_cons.mpr h⟩
      rcases List.mem_cons.mp he with rfl | he
      · exact hc
      · exact Std.TransCmp.lt_trans hc (h.1 e he)
    next hc => exact List.pairwise_cons.mpr ⟨h.1, h.2⟩
    next hc =>
      refine List.pairwise_cons.mpr ⟨fun e he => ?_, ih h.2⟩
      rcases mem_insertEntry he with he | ⟨f, hf, he⟩
      · rw [he]; exact Std.OrientedCmp.gt_iff_lt.mp hc
      · rw [he]; exact h.1 f hf

def empty : SortedMap κ β := ⟨[], .nil⟩

instance : Inhabited (SortedMap κ β) := ⟨empty⟩

def get? (m : SortedMap κ β) (k : κ) : Option β := lookUp k m.entries

def contains (m : SortedMap κ β) (k : κ) : Bool := (m.get? k).isSome

/-- Adds an entry; a value already under `k` becomes `join old v`. -/
def insertWith (join : β → β → β) (m : SortedMap κ β) (k : κ) (v : β) : SortedMap κ β :=
  ⟨insertEntry join k v m.entries, ascending_insertEntry m.ascending⟩

/-- Adds an entry; a value already under `k` is replaced. -/
def insert (m : SortedMap κ β) (k : κ) (v : β) : SortedMap κ β :=
  m.insertWith (fun _ new => new) k v

def filter (p : κ → β → Bool) (m : SortedMap κ β) : SortedMap κ β :=
  ⟨m.entries.filter fun e => p e.1 e.2, m.ascending.filter _⟩

def erase (m : SortedMap κ β) (k : κ) : SortedMap κ β :=
  m.filter fun l _ => compare k l != .eq

def mapValues {γ : Type} (f : κ → β → γ) (m : SortedMap κ β) : SortedMap κ γ :=
  ⟨m.entries.map fun e => (e.1, f e.1 e.2), List.pairwise_map.mpr m.ascending⟩

/-- The entries in the order given; of two with one key the later counts. -/
def ofList (es : List (κ × β)) : SortedMap κ β :=
  es.foldl (fun m e => m.insert e.1 e.2) empty

/-- All entries of both maps; where both have a key its value is `join` of the two. -/
def unionWith (join : β → β → β) (a b : SortedMap κ β) : SortedMap κ β :=
  b.entries.foldl (fun m e => m.insertWith join e.1 e.2) a

def keys (m : SortedMap κ β) : List κ := m.entries.map (·.1)

def values (m : SortedMap κ β) : List β := m.entries.map (·.2)

def size (m : SortedMap κ β) : Nat := m.entries.length

/-- Same keys, and values that `p` holds alike. -/
def alikeWith (p : β → β → Bool) (a b : SortedMap κ β) : Bool :=
  a.size == b.size &&
    (a.entries.zip b.entries).all fun (x, y) => compare x.1 y.1 == .eq && p x.2 y.2

end SortedMap

/-- A finite set: a map whose values say nothing. -/
abbrev SortedSet (κ : Type) [Ord κ] := SortedMap κ Unit

namespace SortedSet

variable {κ : Type} [Ord κ] [Std.TransOrd κ]

def add (s : SortedSet κ) (k : κ) : SortedSet κ := s.insert k ()

def ofList (ks : List κ) : SortedSet κ := ks.foldl add SortedMap.empty

def union (a b : SortedSet κ) : SortedSet κ := a.unionWith (fun _ _ => ()) b

end SortedSet

end ThreatGossip

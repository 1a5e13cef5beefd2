import ThreatGossip.Proofs.Doubles
import ThreatGossip.Proofs.Json.Formats
/-!
How deep a text nests, and which documents come back of their text. Without faults the depth is all
that decides whether a tree is legible. A document whose numbers come back comes back as it is; so
does one whose numbers are integers of the 64-bit ranges. What comes back equals itself.
-/
namespace ThreatGossip.Json

namespace Tree

mutual

/-- A legible tree nests no deeper than the room allows. -/
theorem depth_le_of_legible :
    ∀ {t : Tree} {room : Nat}, t.legible room = true → t.depth ≤ room
  | .null, _, _ => Nat.zero_le _
  | .boolean _, _, _ => Nat.zero_le _
  | .number _, _, _ => Nat.zero_le _
  | .string _, _, _ => Nat.zero_le _
  | .array items closed, room, h => by
    simp only [legible, Bool.and_eq_true, decide_eq_true_eq] at h
    have inside := depthItems_le_of_legible h.1.2
    simp only [depth]
    omega
  | .object members closed, room, h => by
    simp only [legible, Bool.and_eq_true, decide_eq_true_eq] at h
    have inside := depthMembers_le_of_legible h.1.2
    simp only [depth]
    omega

theorem depthItems_le_of_legible :
    ∀ {ts : List Tree} {room : Nat}, legibleItems room ts = true → depthItems ts ≤ room
  | [], _, _ => Nat.zero_le _
  | t :: ts, room, h => by
    simp only [legibleItems, Bool.and_eq_true] at h
    exact Nat.max_le.mpr ⟨depth_le_of_legible h.1, depthItems_le_of_legible h.2⟩

theorem depthMembers_le_of_legible :
    ∀ {ms : List (Name × Tree)} {room : Nat}, legibleMembers room ms = true →
      depthMembers ms ≤ room
  | [], _, _ => Nat.zero_le _
  | (_, t) :: ms, room, h => by
    simp only [legibleMembers, Bool.and_eq_true] at h
    exact Nat.max_le.mpr ⟨depth_le_of_legible h.1.2, depthMembers_le_of_legible h.2⟩

end

mutual

/-- What is legible anywhere is legible where it fits. -/
theorem legible_of_depth_le : ∀ {t : Tree} {room less : Nat}, t.legible room = true →
    t.depth ≤ less → t.legible less = true
  | .null, _, _, _, _ => rfl
  | .boolean _, _, _, _, _ => rfl
  | .number _, _, _, _, _ => rfl
  | .string _, _, _, _, _ => rfl
  | .array items closed, room, less, h, bound => by
    simp only [legible, Bool.and_eq_true, decide_eq_true_eq] at h ⊢
    simp only [depth] at bound
    exact ⟨⟨by omega, legibleItems_of_depth_le h.1.2 (by omega)⟩, h.2⟩
  | .object members closed, room, less, h, bound => by
    simp only [legible, Bool.and_eq_true, decide_eq_true_eq] at h ⊢
    simp only [depth] at bound
    exact ⟨⟨by omega, legibleMembers_of_depth_le h.1.2 (by omega)⟩, h.2⟩

theorem legibleItems_of_depth_le : ∀ {ts : List Tree} {room less : Nat},
    legibleItems room ts = true → depthItems ts ≤ less → legibleItems less ts = true
  | [], _, _, _, _ => rfl
  | t :: ts, room, less, h, bound => by
    simp only [legibleItems, Bool.and_eq_true] at h ⊢
    have parts := Nat.max_le.mp bound
    exact ⟨legible_of_depth_le h.1 parts.1, legibleItems_of_depth_le h.2 parts.2⟩

theorem legibleMembers_of_depth_le : ∀ {ms : List (Name × Tree)} {room less : Nat},
    legibleMembers room ms = true → depthMembers ms ≤ less → legibleMembers less ms = true
  | [], _, _, _, _ => rfl
  | (_, t) :: ms, room, less, h, bound => by
    simp only [legibleMembers, Bool.and_eq_true] at h ⊢
    have parts := Nat.max_le.mp bound
    exact ⟨⟨h.1.1, legible_of_depth_le h.1.2 parts.1⟩, legibleMembers_of_depth_le h.2 parts.2⟩

end

mutual

/-- There is no fault in what is legible. -/
theorem whole_of_legible : ∀ {t : Tree} {room : Nat}, t.legible room = true → t.whole = true
  | .null, _, _ => rfl
  | .boolean _, _, _ => rfl
  | .number _, _, _ => rfl
  | .string _, _, _ => rfl
  | .array items closed, room, h => by
    simp only [legible, Bool.and_eq_true] at h
    rw [whole, wholeItems_of_legible h.1.2, h.2]
    rfl
  | .object members closed, room, h => by
    simp only [legible, Bool.and_eq_true] at h
    rw [whole, wholeMembers_of_legible h.1.2, h.2]
    rfl

theorem wholeItems_of_legible : ∀ {ts : List Tree} {room : Nat},
    legibleItems room ts = true → wholeItems ts = true
  | [], _, _ => rfl
  | t :: ts, room, h => by
    simp only [legibleItems, Bool.and_eq_true] at h
    rw [wholeItems, whole_of_legible h.1, wholeItems_of_legible h.2]
    rfl

theorem wholeMembers_of_legible : ∀ {ms : List (Name × Tree)} {room : Nat},
    legibleMembers room ms = true → wholeMembers ms = true
  | [], _, _ => rfl
  | (_, t) :: ms, room, h => by
    simp only [legibleMembers, Bool.and_eq_true] at h
    rw [wholeMembers, whole_of_legible h.1.2, wholeMembers_of_legible h.2]
    rfl

end

theorem depth_le_depthMembers {ms : List (Name × Tree)} {m : Name × Tree} (listed : m ∈ ms) :
    m.2.depth ≤ depthMembers ms := by
  induction ms with
  | nil => contradiction
  | cons n ms ih =>
      rcases List.mem_cons.mp listed with rfl | later
      · exact Nat.le_max_left _ _
      · exact Nat.le_trans (ih later) (Nat.le_max_right _ _)

mutual

theorem Plain.legible :
    ∀ {t : Tree} {room : Nat}, t.Plain → t.depth ≤ room → t.legible room = true
  | .null, _, _, _ => rfl
  | .boolean _, _, _, _ => rfl
  | .number _, _, _, _ => rfl
  | .string _, _, _, _ => rfl
  | .array items closed, room, ⟨plain, shut⟩, h => by
    simp only [depth] at h
    have inside : legibleItems (room - 1) items = true := legibleItems_of_plain plain (by omega)
    simp only [Tree.legible, inside, shut, Bool.and_true, decide_eq_true_eq]
    omega
  | .object members closed, room, ⟨plain, shut⟩, h => by
    simp only [depth] at h
    have inside : legibleMembers (room - 1) members = true :=
      legibleMembers_of_plain plain (by omega)
    simp only [Tree.legible, inside, shut, Bool.and_true, decide_eq_true_eq]
    omega

theorem legibleItems_of_plain :
    ∀ {ts : List Tree} {room : Nat}, PlainItems ts → depthItems ts ≤ room →
      legibleItems room ts = true
  | [], _, _, _ => rfl
  | t :: ts, room, ⟨first, others⟩, h => by
    have bound := Nat.max_le.mp h
    rw [legibleItems, first.legible bound.1, legibleItems_of_plain others bound.2]
    rfl

theorem legibleMembers_of_plain :
    ∀ {ms : List (Name × Tree)} {room : Nat}, PlainMembers ms → depthMembers ms ≤ room →
      legibleMembers room ms = true
  | [], _, _, _ => rfl
  | (_, t) :: ms, room, ⟨⟨s, rfl⟩, first, others⟩, h => by
    have bound := Nat.max_le.mp h
    rw [legibleMembers, first.legible bound.1, legibleMembers_of_plain others bound.2]
    rfl

end

/-- Without faults the depth decides. -/
theorem Plain.legible_iff {t : Tree} (h : t.Plain) (room : Nat) :
    t.legible room = true ↔ t.depth ≤ room :=
  ⟨depth_le_of_legible, h.legible⟩

section Depths

variable {ms : List (String × Tree)} {ts : List Tree} {room : Nat}

theorem depthItems_le_iff : depthItems ts ≤ room ↔ ∀ t ∈ ts, t.depth ≤ room := by
  induction ts with
  | nil => simp [depthItems]
  | cons t ts ih => rw [depthItems, Nat.max_le, ih, List.forall_mem_cons]

theorem depth_list_le : (list ts).depth ≤ room + 1 ↔ ∀ t ∈ ts, t.depth ≤ room := by
  rw [← depthItems_le_iff]
  exact Nat.add_le_add_iff_right

theorem not_depth_list_le_zero : ¬(list ts).depth ≤ 0 := Nat.not_succ_le_zero _

theorem depthMembers_le_iff :
    depthMembers (ms.map fun m => (.ofString m.1, m.2)) ≤ room ↔ ∀ m ∈ ms, m.2.depth ≤ room := by
  induction ms with
  | nil => simp [depthMembers]
  | cons m ms ih => rw [List.map_cons, depthMembers, Nat.max_le, ih, List.forall_mem_cons]

theorem depth_record_le : (record ms).depth ≤ room + 1 ↔ ∀ m ∈ ms, m.2.depth ≤ room := by
  rw [← depthMembers_le_iff]
  exact Nat.add_le_add_iff_right

theorem not_depth_record_le_zero : ¬(record ms).depth ≤ 0 := Nat.not_succ_le_zero _

end Depths

end Tree

theorem Number.depth_reread (n : Number) : n.reread.depth = 0 := by
  rcases n.text_spelled with null | ⟨m, proper, spelled⟩
  · rw [reread, null]
    rfl
  · rw [reread_of_spelling proper spelled, Numeral.tree]
    cases m.value <;> rfl

namespace Tree

mutual

/-- What is read of a text nests as deep as what was written. -/
theorem depth_reread : ∀ t : Tree, t.reread.depth = t.depth
  | .null => rfl
  | .boolean _ => rfl
  | .number n => n.depth_reread
  | .string _ => rfl
  | .flawed => rfl
  | .broken => rfl
  | .array items _ => congrArg (· + 1) (depthItems_reread items)
  | .object members _ => congrArg (· + 1) (depthMembers_reread members)

theorem depthItems_reread : ∀ ts : List Tree, depthItems (rereadItems ts) = depthItems ts
  | [] => rfl
  | t :: ts => congrArg₂ max (depth_reread t) (depthItems_reread ts)

theorem depthMembers_reread :
    ∀ ms : List (Name × Tree), depthMembers (rereadMembers ms) = depthMembers ms
  | [] => rfl
  | (_, t) :: ms => congrArg₂ max (depth_reread t) (depthMembers_reread ms)

end

section Stability

variable {ts : List Tree} {ms : List (String × Tree)}

theorem rereadItems_eq_self (h : ∀ t ∈ ts, t.reread = t) : rereadItems ts = ts := by
  induction ts with
  | nil => rfl
  | cons t ts ih =>
      obtain ⟨first, others⟩ := List.forall_mem_cons.mp h
      rw [rereadItems, first, ih others]

theorem reread_list_eq_self (h : ∀ t ∈ ts, t.reread = t) : (list ts).reread = list ts :=
  congrArg (array · true) (rereadItems_eq_self h)

theorem spelled_eq_self (h : ∀ m ∈ ms, m.2.reread = m.2) :
    spelled ms = ms.map fun m => (.ofString m.1, m.2) :=
  List.map_congr_left fun m member => by rw [h m member]

theorem reread_record_eq_self (h : ∀ m ∈ ms, m.2.reread = m.2) :
    (record ms).reread = record ms := by
  rw [reread_record, spelled_eq_self h, record]

end Stability

mutual

/-- Every number is an integer of the 64-bit ranges. -/
def Integral : Tree → Prop
  | .number (.integer i) => minSigned ≤ i ∧ i ≤ maxCount.toNat
  | .number (.double _) => False
  | .array items _ => IntegralItems items
  | .object members _ => IntegralMembers members
  | _ => True

def IntegralItems : List Tree → Prop
  | [] => True
  | t :: ts => t.Integral ∧ IntegralItems ts

def IntegralMembers : List (Name × Tree) → Prop
  | [] => True
  | (_, t) :: ms => t.Integral ∧ IntegralMembers ms

end

mutual

/-- Whether a tree holds no other numbers can be told. -/
def decideIntegral : (t : Tree) → Decidable t.Integral
  | .null => .isTrue trivial
  | .boolean _ => .isTrue trivial
  | .number (.integer i) => inferInstanceAs (Decidable (minSigned ≤ i ∧ i ≤ maxCount.toNat))
  | .number (.double _) => .isFalse id
  | .string _ => .isTrue trivial
  | .flawed => .isTrue trivial
  | .broken => .isTrue trivial
  | .array items _ => decideIntegralItems items
  | .object members _ => decideIntegralMembers members

def decideIntegralItems : (ts : List Tree) → Decidable (IntegralItems ts)
  | [] => .isTrue trivial
  | t :: ts => @instDecidableAnd _ _ (decideIntegral t) (decideIntegralItems ts)

def decideIntegralMembers : (ms : List (Name × Tree)) → Decidable (IntegralMembers ms)
  | [] => .isTrue trivial
  | (_, t) :: ms => @instDecidableAnd _ _ (decideIntegral t) (decideIntegralMembers ms)

end

instance (t : Tree) : Decidable t.Integral := decideIntegral t

mutual

theorem Integral.reread_eq_self : ∀ {t : Tree}, t.Integral → t.reread = t
  | .null, _ => rfl
  | .boolean _, _ => rfl
  | .number (.integer _), ⟨low, high⟩ => Number.reread_integer low high
  | .string _, _ => rfl
  | .flawed, _ => rfl
  | .broken, _ => rfl
  | .array _ closed, h => congrArg (array · closed) (rereadItems_of_integral h)
  | .object _ closed, h => congrArg (object · closed) (rereadMembers_of_integral h)

theorem rereadItems_of_integral : ∀ {ts : List Tree}, IntegralItems ts → rereadItems ts = ts
  | [], _ => rfl
  | _ :: _, ⟨first, others⟩ =>
    congrArg₂ List.cons first.reread_eq_self (rereadItems_of_integral others)

theorem rereadMembers_of_integral :
    ∀ {ms : List (Name × Tree)}, IntegralMembers ms → rereadMembers ms = ms
  | [], _ => rfl
  | (name, _) :: _, ⟨first, others⟩ =>
    congrArg₂ (fun t ms => (name, t) :: ms) first.reread_eq_self
      (rereadMembers_of_integral others)

end

/-- The members of a document are sorted as they stand. -/
theorem sortMembers_eq_self {ms : List (String × Tree)}
    (h : NamesAscend (ms.map fun m => (.ofString m.1, m.2))) :
    sortMembers ms = ms.map fun m => (.ofString m.1, m.2) := by
  rw [sortMembers, SortedMap.entries_ofList]
  refine (List.pairwise_map.mp h).imp fun ⟨x, y, left, right, less⟩ => ?_
  rw [Option.some.inj (congrArg Name.text? left), Option.some.inj (congrArg Name.text? right)]
  exact less

theorem map_ofString_normalizeMembers : ∀ {ms : List (Name × Tree)},
    CanonicalMembers ms → (∀ m ∈ ms, m.2.normalize = m.2) →
      (normalizeMembers ms).map (fun m => (Name.ofString m.1, m.2)) = ms
  | [], _, _ => rfl
  | (_, t) :: ms, ⟨⟨s, rfl⟩, _, others⟩, h => by
    obtain ⟨first, rest⟩ := List.forall_mem_cons.mp h
    rw [normalizeMembers, List.map_cons, map_ofString_normalizeMembers others rest, first]
    rfl

mutual

/-- A document denotes itself. -/
theorem Canonical.normalize_eq_self : ∀ {t : Tree}, t.Canonical → t.normalize = t
  | .null, _ => rfl
  | .boolean _, _ => rfl
  | .number _, _ => rfl
  | .string _, _ => rfl
  | .array _ _, ⟨items, shut⟩ => by
    rw [normalize, normalizeItems_of_canonical items, shut]
  | .object members _, ⟨ascend, inside, shut⟩ => by
    have same := map_ofString_normalizeMembers inside (normalize_of_canonicalMembers inside)
    rw [normalize, sortMembers_eq_self (by rw [same]; exact ascend), same, shut]

theorem normalizeItems_of_canonical :
    ∀ {ts : List Tree}, CanonicalItems ts → normalizeItems ts = ts
  | [], _ => rfl
  | _ :: _, ⟨first, others⟩ =>
    congrArg₂ List.cons first.normalize_eq_self (normalizeItems_of_canonical others)

theorem normalize_of_canonicalMembers :
    ∀ {ms : List (Name × Tree)}, CanonicalMembers ms → ∀ m ∈ ms, m.2.normalize = m.2
  | [], _, _, member => nomatch member
  | (_, _) :: _, ⟨_, first, others⟩, m, member => by
    rcases List.mem_cons.mp member with rfl | later
    · exact first.normalize_eq_self
    · exact normalize_of_canonicalMembers others m later

end

mutual

/-- The document that a tree denotes nests no deeper than the tree. -/
theorem depth_normalize_le : ∀ t : Tree, t.normalize.depth ≤ t.depth
  | .null => Nat.le_refl _
  | .boolean _ => Nat.le_refl _
  | .number _ => Nat.le_refl _
  | .string _ => Nat.le_refl _
  | .flawed => Nat.le_refl _
  | .broken => Nat.le_refl _
  | .array items _ => Nat.add_le_add_right (depthItems_normalize_le items) 1
  | .object members _ => by
    refine Nat.add_le_add_right (depthMembers_le_iff.mpr fun m listed => ?_) 1
    exact SortedMap.forall_values_ofList (P := (·.depth ≤ depthMembers members))
      (depth_normalizeMembers_le members) m listed

theorem depthItems_normalize_le : ∀ ts : List Tree, depthItems (normalizeItems ts) ≤ depthItems ts
  | [] => Nat.le_refl _
  | t :: ts => Nat.max_le.mpr
    ⟨Nat.le_trans (depth_normalize_le t) (Nat.le_max_left _ _),
      Nat.le_trans (depthItems_normalize_le ts) (Nat.le_max_right _ _)⟩

theorem depth_normalizeMembers_le : ∀ ms : List (Name × Tree),
    ∀ m ∈ normalizeMembers ms, m.2.depth ≤ depthMembers ms
  | [], _, member => nomatch member
  | (_, t) :: ms, m, member => by
    rcases List.mem_cons.mp member with rfl | later
    · exact Nat.le_trans (depth_normalize_le t) (Nat.le_max_left _ _)
    · exact Nat.le_trans (depth_normalizeMembers_le ms m later) (Nat.le_max_right _ _)

end

end Tree

/-- How deep the arrays and objects of a text nest. -/
def nesting (text : String) : Nat := (Tree.ofChars text.toList).1.depth

theorem nesting_encode {α : Type} {f : Format α} (plain : f.WritesPlain) (a : α) :
    nesting (f.encode a) = (f.write a).depth := by
  rw [nesting, Format.encode, Tree.ofChars_text (plain a), Tree.depth_reread]

namespace Document

/-- Nothing of the document changes on the way through its text. -/
def Portable (d : Document) : Prop := d.tree.reread = d.tree

theorem portable_of_integral {d : Document} (h : d.tree.Integral) : d.Portable := h.reread_eq_self

@[ext] theorem ext {d e : Document} (h : d.tree = e.tree) : d = e := by
  cases d
  cases e
  cases h
  rfl

theorem ofTree_tree (d : Document) : ofTree d.tree = d := ext d.canonical.normalize_eq_self

theorem isNull_iff {d : Document} : d.isNull = true ↔ d.tree = .null := by
  unfold isNull
  split
  next null => simp [null]
  next other => simpa using other

end Document

section Likeness

theorem field_of_isNaN {x : Float} (h : x.isNaN = true) :
    Decimal.Binary.field x.toBits = 2047 := by
  rw [Double.toBits_of_isNaN h]
  rfl

theorem Number.alike_self {n : Number} (h : n.reread = .number n) : n.alike n = true := by
  cases n with
  | integer i => exact beq_self_eq_true i
  | double x =>
      refine Double.beq_self ?_
      cases nan : x.isNaN with
      | false => exact nan
      | true =>
          have blank : (double x).text = "null".toList := if_pos (field_of_isNaN nan)
          rw [Number.reread, blank] at h
          cases h

namespace Tree

mutual

/-- What comes back equals itself. -/
theorem Canonical.alike_self : ∀ {t : Tree}, t.Canonical → t.reread = t → t.alike t = true
  | .null, _, _ => rfl
  | .boolean b, _, _ => beq_self_eq_true b
  | .number _, _, h => Number.alike_self h
  | .string s, _, _ => beq_self_eq_true s
  | .array _ _, ⟨items, _⟩, h => alikeItems_self items (Tree.array.inj h).1
  | .object _ _, ⟨_, members, _⟩, h => alikeMembers_self members (Tree.object.inj h).1

theorem alikeItems_self : ∀ {ts : List Tree}, CanonicalItems ts → rereadItems ts = ts →
    alikeItems ts ts = true
  | [], _, _ => rfl
  | _ :: _, ⟨first, others⟩, h => by
    obtain ⟨here, rest⟩ := List.cons.inj h
    rw [alikeItems, first.alike_self here, alikeItems_self others rest]
    rfl

theorem alikeMembers_self : ∀ {ms : List (Name × Tree)}, CanonicalMembers ms →
    rereadMembers ms = ms → alikeMembers ms ms = true
  | [], _, _ => rfl
  | (_, _) :: _, ⟨_, first, others⟩, h => by
    obtain ⟨here, rest⟩ := List.cons.inj h
    rw [alikeMembers, first.alike_self (Prod.mk.inj here).2, alikeMembers_self others rest,
      beq_self_eq_true]
    rfl

end

end Tree

theorem Document.Portable.alike_self {d : Document} (h : d.Portable) : d.alike d = true :=
  d.canonical.alike_self h

end Likeness

end ThreatGossip.Json

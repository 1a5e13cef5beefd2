import ThreatGossip.Json.Document
import ThreatGossip.Json.Writer
import ThreatGossip.Proofs.Json.Numerals
import ThreatGossip.Proofs.Json.Strings
/-!
Written trees are read back. A tree that stands for a value is read from its text up to its numbers:
a double comes back as the number that its text gives, and one that is no number as `null`.
-/
namespace ThreatGossip.Json

/-- What a value begins with is no blank and closes nothing. -/
def Begins (c : Char) : Prop := isBlank c = false ∧ c ≠ ']' ∧ c ≠ '\x7d'

instance (c : Char) : Decidable (Begins c) := inferInstanceAs (Decidable (_ ∧ _))

theorem Begins.skipBlanks {c : Char} (h : Begins c) (cs : List Char) :
    skipBlanks (c :: cs) = c :: cs := by
  rw [Json.skipBlanks, List.dropWhile_cons_of_neg (by simp [h.1])]

namespace Number

/-- What is read from the text of a number. -/
def reread (n : Number) : Tree := (Tree.ofChars n.text).1

theorem text_spelled (n : Number) :
    n.text = "null".toList ∨ ∃ m : Numeral, m.Proper ∧ n.text = m.spelling := by
  cases n with
  | integer i => exact .inr ⟨wholeNumeral i, proper_wholeNumeral i, text_integer i⟩
  | double x => exact doubleText_spelled x

theorem Numeral.Proper.head {n : Numeral} (h : n.Proper) :
    ∃ c cs, n.spelling = c :: cs ∧ (c = '-' ∨ c.isDigit = true) := by
  unfold spelling
  cases n.negative with
  | true => exact ⟨'-', _, rfl, .inl rfl⟩
  | false =>
      obtain ⟨nonempty, digit⟩ := h.whole
      cases whole : n.whole with
      | nil => exact absurd whole nonempty
      | cons d ds => exact ⟨d, _, rfl, .inr (digit d (whole ▸ List.mem_cons_self))⟩

theorem ne_of_head {c : Char} (head : c = '-' ∨ c.isDigit = true) {d : Char} (minus : d ≠ '-')
    (letter : d.isDigit = false) : c ≠ d := by
  rintro rfl
  rcases head with same | digit
  · exact minus same
  · rw [letter] at digit
    contradiction

theorem begins_of_head {c : Char} (head : c = '-' ∨ c.isDigit = true) : Begins c := by
  have other {d : Char} := ne_of_head head (d := d)
  have space := other (d := ' ') (by decide) (by decide)
  have line := other (d := '\n') (by decide) (by decide)
  have tab := other (d := '\t') (by decide) (by decide)
  have carriage := other (d := '\r') (by decide) (by decide)
  exact ⟨by simp [isBlank, space, line, tab, carriage], other (by decide) (by decide),
    other (by decide) (by decide)⟩

/-- A tree that is read from a character which begins a number is a number. -/
theorem readTree_of_head {c : Char} (head : c = '-' ∨ c.isDigit = true) (cs : List Char)
    (fuel : Nat) : readTree (fuel + 1) (c :: cs) = readNumber (c :: cs) := by
  rw [readTree, (begins_of_head head).skipBlanks]
  split
  next eq => exact absurd (List.cons.inj eq).1 (ne_of_head head (by decide) (by decide))
  next eq => exact absurd (List.cons.inj eq).1 (ne_of_head head (by decide) (by decide))
  next eq => exact absurd (List.cons.inj eq).1 (ne_of_head head (by decide) (by decide))
  next eq => exact absurd (List.cons.inj eq).1 (ne_of_head head (by decide) (by decide))
  next eq => exact absurd (List.cons.inj eq).1 (ne_of_head head (by decide) (by decide))
  next eq => exact absurd (List.cons.inj eq).1 (ne_of_head head (by decide) (by decide))
  next => rfl

/-- The tree of a numeral that has been split off. -/
def Numeral.tree (n : Numeral) : Tree :=
  match n.value with
  | some n => .number n
  | none => .flawed

theorem readTree_spelling {n : Numeral} (h : n.Proper) {rest : List Char} (stop : Ends rest)
    (fuel : Nat) : readTree (fuel + 1) (n.spelling ++ rest) = (n.tree, some rest) := by
  obtain ⟨c, cs, shape, head⟩ := h.head
  have read := readTree_of_head head (cs ++ rest) fuel
  rw [← List.cons_append, ← shape] at read
  rw [read, readNumber, Numeral.scan_spelling h stop]
  cases value : n.value <;> simp [value, Numeral.tree]

theorem reread_of_spelling {n : Number} {m : Numeral} (h : m.Proper)
    (spelled : n.text = m.spelling) : n.reread = m.tree := by
  rw [reread, Tree.ofChars, spelled]
  have read := readTree_spelling h ends_nil (2 * m.spelling.length + 1)
  rw [List.append_nil] at read
  rw [read]

/-- A number is read from its text in front of anything that does not go on with it. -/
theorem readTree_text (n : Number) {rest : List Char} (stop : Ends rest) (fuel : Nat) :
    readTree (fuel + 1) (n.text ++ rest) = (n.reread, some rest) := by
  rcases n.text_spelled with null | ⟨m, proper, spelled⟩
  · rw [reread, null]
    rfl
  · rw [reread_of_spelling proper spelled, spelled]
    exact readTree_spelling proper stop fuel

theorem text_begins (n : Number) : ∃ c cs, n.text = c :: cs ∧ Begins c := by
  rcases n.text_spelled with null | ⟨m, proper, spelled⟩
  · exact ⟨'n', _, null, by decide⟩
  · obtain ⟨c, cs, shape, head⟩ := proper.head
    exact ⟨c, cs, spelled.trans shape, begins_of_head head⟩

theorem reread_integer {i : Int} (low : minSigned ≤ i) (high : i ≤ maxCount.toNat) :
    (integer i).reread = .number (.integer i) := by
  rw [reread_of_spelling (proper_wholeNumeral i) (text_integer i), Numeral.tree,
    value_wholeNumeral low high]

end Number

namespace Tree

mutual

/-- The tree stands for a value: everything is closed, and every name has a text. -/
def Plain : Tree → Prop
  | .array items closed => PlainItems items ∧ closed = true
  | .object members closed => PlainMembers members ∧ closed = true
  | .flawed => False
  | .broken => False
  | _ => True

def PlainItems : List Tree → Prop
  | [] => True
  | t :: ts => t.Plain ∧ PlainItems ts

def PlainMembers : List (Name × Tree) → Prop
  | [] => True
  | (name, t) :: ms => (∃ s, name = .ofString s) ∧ t.Plain ∧ PlainMembers ms

end

mutual

theorem Canonical.plain : ∀ {t : Tree}, t.Canonical → t.Plain
  | .null, _ => trivial
  | .boolean _, _ => trivial
  | .number _, _ => trivial
  | .string _, _ => trivial
  | .array _ _, ⟨items, closed⟩ => ⟨plainItems items, closed⟩
  | .object _ _, ⟨_, members, closed⟩ => ⟨plainMembers members, closed⟩

theorem plainItems : ∀ {ts : List Tree}, CanonicalItems ts → PlainItems ts
  | [], _ => trivial
  | _ :: _, ⟨t, ts⟩ => ⟨t.plain, plainItems ts⟩

theorem plainMembers : ∀ {ms : List (Name × Tree)}, CanonicalMembers ms → PlainMembers ms
  | [], _ => trivial
  | (_, _) :: _, ⟨name, t, ms⟩ => ⟨name, t.plain, plainMembers ms⟩

end

mutual

/-- What is read from the text of a tree. -/
def reread : Tree → Tree
  | .number n => n.reread
  | .array items closed => .array (rereadItems items) closed
  | .object members closed => .object (rereadMembers members) closed
  | t => t

def rereadItems : List Tree → List Tree
  | [] => []
  | t :: ts => t.reread :: rereadItems ts

def rereadMembers : List (Name × Tree) → List (Name × Tree)
  | [] => []
  | (name, t) :: ms => (name, t.reread) :: rereadMembers ms

end

theorem rereadMembers_eq (ms : List (Name × Tree)) :
    rereadMembers ms = ms.map fun m => (m.1, m.2.reread) := by
  induction ms with
  | nil => rfl
  | cons m ms ih => rw [rereadMembers, ih, List.map_cons]

mutual

theorem length_onto : ∀ (t : Tree) (rest : List Char), rest.length ≤ (t.onto rest).length
  | .null, rest => by simp only [onto, List.length_cons]; omega
  | .boolean true, rest => by simp only [onto, List.length_cons]; omega
  | .boolean false, rest => by simp only [onto, List.length_cons]; omega
  | .number n, rest => by simp only [onto, List.length_append]; omega
  | .string s, rest => by
    simp only [onto, quoteOnto_eq, List.length_append, List.length_cons]
    omega
  | .array [] _, rest => by simp only [onto, List.length_cons]; omega
  | .array (t :: ts) _, rest => by
    have first := length_onto t (itemsOnto ts rest)
    have others := length_itemsOnto ts rest
    simp only [onto, List.length_cons]
    omega
  | .object [] _, rest => by simp only [onto, List.length_cons]; omega
  | .object ((name, t) :: ms) _, rest => by
    have first := length_onto t (membersOnto ms rest)
    have others := length_membersOnto ms rest
    simp only [onto, quoteOnto_eq, List.length_append, List.length_cons]
    omega
  | .flawed, rest => Nat.le_refl _
  | .broken, rest => Nat.le_refl _

theorem length_itemsOnto : ∀ (ts : List Tree) (rest : List Char),
    rest.length < (itemsOnto ts rest).length
  | [], rest => by simp [itemsOnto]
  | t :: ts, rest => by
    have first := length_onto t (itemsOnto ts rest)
    have others := length_itemsOnto ts rest
    simp only [itemsOnto, List.length_cons]
    omega

theorem length_membersOnto : ∀ (ms : List (Name × Tree)) (rest : List Char),
    rest.length < (membersOnto ms rest).length
  | [], rest => by simp [membersOnto]
  | (name, t) :: ms, rest => by
    have first := length_onto t (membersOnto ms rest)
    have others := length_membersOnto ms rest
    simp only [membersOnto, quoteOnto_eq, List.length_append, List.length_cons]
    omega

end

mutual

/-- What stands behind a tree does not change its text. -/
theorem onto_append : ∀ (t : Tree) (rest more : List Char),
    t.onto (rest ++ more) = t.onto rest ++ more
  | .null, _, _ => rfl
  | .boolean true, _, _ => rfl
  | .boolean false, _, _ => rfl
  | .number _, _, _ => (List.append_assoc ..).symm
  | .string _, _, _ => by simp only [onto, quoteOnto_eq, List.cons_append, List.append_assoc]
  | .array [] _, _, _ => rfl
  | .array (t :: ts) _, rest, more => by
    rw [onto, itemsOnto_append, onto_append t]
    rfl
  | .object [] _, _, _ => rfl
  | .object ((name, t) :: ms) _, rest, more => by
    rw [onto, membersOnto_append, onto_append t]
    simp only [onto, quoteOnto_eq, List.cons_append, List.append_assoc]
  | .flawed, _, _ => rfl
  | .broken, _, _ => rfl

theorem itemsOnto_append : ∀ (ts : List Tree) (rest more : List Char),
    itemsOnto ts (rest ++ more) = itemsOnto ts rest ++ more
  | [], _, _ => rfl
  | t :: ts, rest, more => by
    rw [itemsOnto, itemsOnto_append ts, onto_append t]
    rfl

theorem membersOnto_append : ∀ (ms : List (Name × Tree)) (rest more : List Char),
    membersOnto ms (rest ++ more) = membersOnto ms rest ++ more
  | [], _, _ => rfl
  | (name, t) :: ms, rest, more => by
    rw [membersOnto, membersOnto_append ms, onto_append t]
    simp only [membersOnto, quoteOnto_eq, List.cons_append, List.append_assoc]

end

/-- The text of a tree in front of anything. -/
theorem onto_eq (t : Tree) (rest : List Char) : t.onto rest = t.text.toList ++ rest := by
  rw [text, String.toList_ofList, ← onto_append, List.nil_append]

theorem onto_begins {t : Tree} (h : t.Plain) (rest : List Char) :
    ∃ c cs, t.onto rest = c :: cs ∧ Begins c := by
  match t, h with
  | .null, _ => exact ⟨'n', _, rfl, by decide⟩
  | .boolean true, _ => exact ⟨'t', _, rfl, by decide⟩
  | .boolean false, _ => exact ⟨'f', _, rfl, by decide⟩
  | .number n, _ =>
    obtain ⟨c, cs, shape, begins⟩ := n.text_begins
    exact ⟨c, cs ++ rest, by rw [onto, shape]; rfl, begins⟩
  | .string _, _ => exact ⟨'"', _, rfl, by decide⟩
  | .array [] _, _ => exact ⟨'[', _, rfl, by decide⟩
  | .array (_ :: _) _, _ => exact ⟨'[', _, rfl, by decide⟩
  | .object [] _, _ => exact ⟨'\x7b', _, rfl, by decide⟩
  | .object ((_, _) :: _) _, _ => exact ⟨'\x7b', _, rfl, by decide⟩

theorem lt_length_onto {t : Tree} (h : t.Plain) (rest : List Char) :
    rest.length < (t.onto rest).length := by
  match t, h with
  | .null, _ => simp only [onto, List.length_cons]; omega
  | .boolean true, _ => simp only [onto, List.length_cons]; omega
  | .boolean false, _ => simp only [onto, List.length_cons]; omega
  | .number n, _ =>
    obtain ⟨c, cs, shape, -⟩ := n.text_begins
    simp only [onto, shape, List.length_append, List.length_cons]
    omega
  | .string s, _ => simp only [onto, quoteOnto_eq, List.length_append, List.length_cons]; omega
  | .array items _, _ => cases items with
    | nil => simp only [onto, List.length_cons]; omega
    | cons t ts =>
      have first := length_onto t (itemsOnto ts rest)
      have others := length_itemsOnto ts rest
      simp only [onto, List.length_cons]
      omega
  | .object members _, _ => cases members with
    | nil => simp only [onto, List.length_cons]; omega
    | cons m ms =>
      have first := length_onto m.2 (membersOnto ms rest)
      have others := length_membersOnto ms rest
      simp only [onto, quoteOnto_eq, List.length_append, List.length_cons]
      omega

theorem ends_itemsOnto (ts : List Tree) (rest : List Char) : Number.Ends (itemsOnto ts rest) := by
  cases ts with
  | nil => exact Number.ends_cons (by decide) (by decide) (by decide) (by decide)
  | cons t ts => exact Number.ends_cons (by decide) (by decide) (by decide) (by decide)

theorem ends_membersOnto (ms : List (Name × Tree)) (rest : List Char) :
    Number.Ends (membersOnto ms rest) := by
  cases ms with
  | nil => exact Number.ends_cons (by decide) (by decide) (by decide) (by decide)
  | cons m ms => exact Number.ends_cons (by decide) (by decide) (by decide) (by decide)

/-- The tree is read from its text, given a step for each of its characters. -/
def IsReread (t : Tree) : Prop :=
  ∀ fuel rest, Number.Ends rest → (t.onto rest).length ≤ fuel + rest.length →
    readTree fuel (t.onto rest) = (t.reread, some rest)

section Members

variable (s : String) {t : Tree} {fuel : Nat} {after rest : List Char}

/-- A member that a brace follows is the last. -/
theorem readMembers_last (read : readTree fuel (t.onto after) = (t.reread, some after))
    (brace : skipBlanks after = '\x7d' :: rest) :
    readMembers (fuel + 1) (quoteOnto s.toList (':' :: t.onto after)) =
      ([(.ofString s, t.reread)], some rest) := by
  have quote : Begins '"' := by decide
  have colon : Begins ':' := by decide
  rw [quoteOnto_eq, readMembers, quote.skipBlanks]
  simp only [readQuoted_written, colon.skipBlanks, read, name_written, brace]

/-- A member that a comma follows stands before those that are read from there. -/
theorem readMembers_more (read : readTree fuel (t.onto after) = (t.reread, some after))
    (comma : skipBlanks after = ',' :: rest) :
    readMembers (fuel + 1) (quoteOnto s.toList (':' :: t.onto after)) =
      ((.ofString s, t.reread) :: (readMembers fuel rest).1, (readMembers fuel rest).2) := by
  have quote : Begins '"' := by decide
  have colon : Begins ':' := by decide
  rw [quoteOnto_eq, readMembers, quote.skipBlanks]
  simp only [readQuoted_written, colon.skipBlanks, read, name_written, comma]

end Members

mutual

theorem isReread : ∀ {t : Tree}, t.Plain → t.IsReread
  | t, h, 0, rest, _, bound => by
    have longer := lt_length_onto h rest
    omega
  | .null, _, fuel + 1, rest, _, _ => rfl
  | .boolean true, _, fuel + 1, rest, _, _ => rfl
  | .boolean false, _, fuel + 1, rest, _, _ => rfl
  -- Only a number could go on with what follows it.
  | .number n, _, fuel + 1, rest, stop, _ => n.readTree_text stop fuel
  | .string s, _, fuel + 1, rest, _, _ => by
    have quote : Begins '"' := by decide
    rw [onto, quoteOnto_eq, readTree, quote.skipBlanks]
    simp only [readQuoted_written]
    rfl
  | .array [] _, ⟨_, rfl⟩, fuel + 1, rest, _, _ => rfl
  | .array (t :: ts) _, ⟨⟨first, others⟩, rfl⟩, fuel + 1, rest, _, bound => by
    obtain ⟨c, cs, shape, begins⟩ := onto_begins first (itemsOnto ts rest)
    have items := readItems_onto others (isReread first) fuel rest (by
      simp only [onto, List.length_cons] at bound
      omega)
    have bracket : Begins '[' := by decide
    rw [onto, readTree, bracket.skipBlanks]
    simp only [shape, begins.skipBlanks]
    split
    next eq => exact absurd (List.cons.inj eq).1 begins.2.1
    next =>
      rw [← shape, items]
      rfl
  | .object [] _, ⟨_, rfl⟩, fuel + 1, rest, _, _ => rfl
  | .object ((_, t) :: ms) _, ⟨⟨⟨s, rfl⟩, first, others⟩, rfl⟩, fuel + 1, rest, _, bound => by
    have quote : Begins '"' := by decide
    have brace : Begins '\x7b' := by decide
    have members := readMembers_onto others s (isReread first) fuel rest (by
      simp only [onto, List.length_cons, Name.text?_ofString, Option.getD_some] at bound
      omega)
    rw [quoteOnto_eq] at members
    rw [onto, readTree, brace.skipBlanks, Name.text?_ofString, Option.getD_some, quoteOnto_eq]
    simp only [quote.skipBlanks]
    split
    next eq => exact absurd (List.cons.inj eq).1 (by decide)
    next =>
      rw [members]
      rfl

theorem readItems_onto : ∀ {ts : List Tree}, PlainItems ts → ∀ {t : Tree}, t.IsReread →
    ∀ fuel rest, (t.onto (itemsOnto ts rest)).length ≤ fuel + rest.length →
      readItems fuel (t.onto (itemsOnto ts rest)) = (t.reread :: rereadItems ts, some rest)
  | ts, _, t, _, 0, rest, bound => by
    have longer := length_itemsOnto ts rest
    have first := length_onto t (itemsOnto ts rest)
    omega
  | [], _, t, first, fuel + 1, rest, bound => by
    have read := first fuel (itemsOnto [] rest) (ends_itemsOnto [] rest) (by
      have longer := length_itemsOnto [] rest
      omega)
    rw [readItems, read]
    rfl
  | u :: us, ⟨next, others⟩, t, first, fuel + 1, rest, bound => by
    have longer := length_itemsOnto (u :: us) rest
    have grown := length_onto t (itemsOnto (u :: us) rest)
    have read := first fuel (itemsOnto (u :: us) rest) (ends_itemsOnto _ rest) (by omega)
    have items := readItems_onto others (isReread next) fuel rest (by
      have shape : (itemsOnto (u :: us) rest).length =
        (u.onto (itemsOnto us rest)).length + 1 := rfl
      omega)
    rw [readItems, read]
    change (match readItems fuel (u.onto (itemsOnto us rest)) with
      | (ts, rest) => (t.reread :: ts, rest)) = _
    rw [items]
    rfl

theorem readMembers_onto : ∀ {ms : List (Name × Tree)}, PlainMembers ms → ∀ (s : String)
    {t : Tree}, t.IsReread → ∀ fuel rest,
      (quoteOnto s.toList (':' :: t.onto (membersOnto ms rest))).length ≤ fuel + rest.length →
      readMembers fuel (quoteOnto s.toList (':' :: t.onto (membersOnto ms rest))) =
        ((.ofString s, t.reread) :: rereadMembers ms, some rest)
  | ms, _, s, t, _, 0, rest, bound => by
    have longer := length_membersOnto ms rest
    have first := length_onto t (membersOnto ms rest)
    simp only [quoteOnto_eq, List.length_append, List.length_cons] at bound
    omega
  | [], _, s, t, first, fuel + 1, rest, bound => by
    have read := first fuel (membersOnto [] rest) (ends_membersOnto [] rest) (by
      have longer := length_membersOnto [] rest
      simp only [quoteOnto_eq, List.length_append, List.length_cons] at bound
      omega)
    rw [readMembers_last s read rfl]
    rfl
  | (_, u) :: us, ⟨⟨name, rfl⟩, next, others⟩, s, t, first, fuel + 1, rest, bound => by
    have longer := length_membersOnto ((.ofString name, u) :: us) rest
    have grown := length_onto t (membersOnto ((.ofString name, u) :: us) rest)
    simp only [quoteOnto_eq, List.length_append, List.length_cons] at bound
    have read := first fuel (membersOnto ((.ofString name, u) :: us) rest)
      (ends_membersOnto _ rest) (by omega)
    have members := readMembers_onto others name (isReread next) fuel rest (by
      have shape : (membersOnto ((.ofString name, u) :: us) rest).length =
        (quoteOnto name.toList (':' :: u.onto (membersOnto us rest))).length + 1 := rfl
      omega)
    rw [readMembers_more s read rfl]
    exact congrArg (fun r => ((Name.ofString s, t.reread) :: r.1, r.2)) members

end

/-- The text of a tree that stands for a value is read to its end. -/
theorem ofChars_text {t : Tree} (h : t.Plain) :
    Tree.ofChars t.text.toList = (t.reread, some []) := by
  rw [text, String.toList_ofList]
  exact isReread h _ [] Number.ends_nil (by simp only [List.length_nil]; omega)

end Tree

end ThreatGossip.Json

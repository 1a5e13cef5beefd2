import Mathlib.Data.List.DropRight
import ThreatGossip.Proofs.Json.Texts
/-!
Values in front of other texts. What is read of a value does not depend on what stands behind it, as
long as that does not go on with a number. So the text of an object is read member by member, each
as it is read by itself.
-/
namespace ThreatGossip.Json

section Scanning

variable {cs rest : List Char}

theorem skipBlanks_append (w : List Char) (h : skipBlanks cs ≠ []) :
    skipBlanks (cs ++ w) = skipBlanks cs ++ w := by
  rw [skipBlanks, List.dropWhile_append, if_neg]
  · rfl
  · exact fun empty => h (List.isEmpty_iff.mp empty)

theorem skipBlanks_append_cons {c : Char} (w : List Char) (h : skipBlanks cs = c :: rest) :
    skipBlanks (cs ++ w) = c :: (rest ++ w) := by
  rw [skipBlanks_append w (by rw [h]; exact List.cons_ne_nil c rest), h]
  rfl

theorem skipBlanks_append_nil (w : List Char) (h : skipBlanks cs = []) :
    skipBlanks (cs ++ w) = skipBlanks w := by
  rw [skipBlanks, List.dropWhile_append, if_pos]
  · rfl
  · exact List.isEmpty_iff.mpr h

theorem skipBlanks_skipBlanks (cs : List Char) : skipBlanks (skipBlanks cs) = skipBlanks cs :=
  List.dropWhile_idempotent isBlank cs

theorem scanQuoted_short {c : Char} {n : Nat} (h : shortEscape? c = some n) (read : List Nat)
    (rest : List Char) : scanQuoted read ('\\' :: c :: rest) = scanQuoted (n :: read) rest := by
  have other : c ≠ 'u' := by
    rintro rfl
    contradiction
  rw [scanQuoted.eq_3 _ _ _ fun _ _ _ _ _ same _ => other same, h]

theorem scanQuoted_plain {c : Char} (quote : c ≠ '"') (h : ¬(c.toNat < 0x20 ∨ c = '\\'))
    (read : List Nat) (rest : List Char) :
    scanQuoted read (c :: rest) = scanQuoted (c.toNat :: read) rest := by
  have backslash := (not_or.mp h).2
  rw [scanQuoted.eq_4 _ _ _ quote (fun _ _ _ _ _ same _ => backslash same)
    (fun _ _ same _ => backslash same), if_neg h]

/-- A string ends at its own quote. -/
theorem scanQuoted_append {read units : List Nat} (w : List Char)
    (h : scanQuoted read cs = some (units, rest)) :
    scanQuoted read (cs ++ w) = some (units, rest ++ w) := by
  fun_induction scanQuoted read cs with
  | case1 read after =>
      obtain ⟨rfl, rfl⟩ := Prod.mk.inj (Option.some.inj h)
      rfl
  | case2 read a b c d after n four ih =>
      simp only [List.cons_append, scanQuoted, four]
      exact ih h
  | case3 => contradiction
  | case4 read c after _ n short ih => exact (scanQuoted_short short read _).trans (ih h)
  | case5 => contradiction
  | case6 => contradiction
  | case7 read c after quote _ _ printed ih =>
      exact (scanQuoted_plain quote printed read _).trans (ih h)
  | case8 => contradiction

theorem quote_mem_of_scanQuoted {read : List Nat} {result : List Nat × List Char}
    (h : scanQuoted read cs = some result) : '"' ∈ cs := by
  fun_induction scanQuoted read cs with
  | case1 => exact List.mem_cons_self
  | case2 read a b c d after n four ih => simp [ih h]
  | case3 => contradiction
  | case4 read c after _ n short ih => simp [ih h]
  | case5 => contradiction
  | case6 => contradiction
  | case7 read c after quote _ _ printed ih => simp [ih h]
  | case8 => contradiction

theorem readQuoted_append {text : Option String} (w : List Char)
    (h : readQuoted cs = some (text, rest)) : readQuoted (cs ++ w) = some (text, rest ++ w) := by
  obtain ⟨⟨units, after⟩, scanned, same⟩ := Option.map_eq_some_iff.mp h
  obtain ⟨rfl, rfl⟩ := Prod.mk.inj same
  rw [readQuoted, scanQuoted_append w scanned]
  rfl

/-- A name is spelled by what stands before its closing quote. -/
theorem takeWhile_append_of_readQuoted {result : Option String × List Char} (w : List Char)
    (h : readQuoted cs = some result) :
    (cs ++ w).takeWhile (· ≠ '"') = cs.takeWhile (· ≠ '"') := by
  obtain ⟨scan, scanned, -⟩ := Option.map_eq_some_iff.mp h
  obtain ⟨before, after, rfl⟩ := List.append_of_mem (quote_mem_of_scanQuoted scanned)
  rw [List.append_assoc, List.cons_append, takeWhile_unquoted, takeWhile_unquoted]

end Scanning

namespace Number

variable {cs rest w : List Char}

theorem span_append (cs : List Char) {p : Char → Bool}
    (stop : ∀ c, w.head? = some c → p c = false) :
    (cs ++ w).takeWhile p = cs.takeWhile p ∧ (cs ++ w).dropWhile p = cs.dropWhile p ++ w := by
  induction cs with
  | nil =>
      cases w with
      | nil => exact ⟨rfl, rfl⟩
      | cons c w => simp [stop c rfl]
  | cons c cs ih =>
      cases h : p c with
      | true => simpa [h] using ih
      | false => simp [h]

namespace Numeral

theorem digits_context (stop : Ends w) {ds : List Char} (h : digits cs = some (ds, rest)) :
    digits (cs ++ w) = some (ds, rest ++ w) := by
  obtain ⟨taken, dropped⟩ := span_append cs fun c head => (stop c head).1
  unfold digits at h ⊢
  rw [taken, dropped]
  split at h
  next => contradiction
  next ds' same =>
    obtain ⟨rfl, rfl⟩ := Prod.mk.inj (Option.some.inj h)
    rfl

theorem fraction?_other (h : cs.head? ≠ some '.') : fraction? cs = some (none, cs) :=
  fraction?.eq_2 cs fun _ same => h (congrArg List.head? same)

theorem fraction_context (stop : Ends w) {f : Option (List Char)}
    (h : fraction? cs = some (f, rest)) : fraction? (cs ++ w) = some (f, rest ++ w) := by
  cases cs with
  | nil =>
      obtain ⟨rfl, rfl⟩ := Prod.mk.inj (Option.some.inj h)
      exact fraction?_other fun head => (stop '.' head).2.1 rfl
  | cons c cs =>
      by_cases point : c = '.'
      · subst point
        obtain ⟨⟨ds, after⟩, read, same⟩ := Option.map_eq_some_iff.mp h
        obtain ⟨rfl, rfl⟩ := Prod.mk.inj same
        rw [List.cons_append, fraction?, digits_context stop read]
        rfl
      · have other (ds : List Char) : fraction? (c :: ds) = some (none, c :: ds) :=
          fraction?_other fun head => point (Option.some.inj head)
        obtain ⟨rfl, rfl⟩ := Prod.mk.inj (Option.some.inj ((other cs).symm.trans h))
        exact other (cs ++ w)

/-- The sign of an exponent, `true` when negative, and what stands behind it. -/
def signOf : List Char → Bool × List Char
  | '-' :: cs => (true, cs)
  | '+' :: cs => (false, cs)
  | cs => (false, cs)

theorem signOf_append (c : Char) (cs w : List Char) :
    signOf (c :: cs ++ w) = ((signOf (c :: cs)).1, (signOf (c :: cs)).2 ++ w) := by
  by_cases minus : c = '-'
  · subst minus
    rfl
  · by_cases plus : c = '+'
    · subst plus
      rfl
    · have other (ds : List Char) : signOf (c :: ds) = (false, c :: ds) :=
        signOf.eq_3 _ (fun _ same => minus (List.cons.inj same).1)
          fun _ same => plus (List.cons.inj same).1
      rw [List.cons_append, other, other]
      rfl

theorem exponent?_letter {c : Char} (letter : c = 'e' ∨ c = 'E') (cs : List Char) :
    exponent? (c :: cs) = (digits (signOf cs).2).map fun (ds, rest) =>
      (some ((signOf cs).1, ds), rest) := by
  change (if c = 'e' ∨ c = 'E' then _ else _) = _
  rw [if_pos letter]
  rfl

theorem exponent?_other (h : ∀ c, cs.head? = some c → ¬(c = 'e' ∨ c = 'E')) :
    exponent? cs = some (none, cs) := by
  cases cs with
  | nil => rfl
  | cons c cs => exact if_neg (h c rfl)

theorem exponent_context (stop : Ends w) {e : Option (Bool × List Char)}
    (h : exponent? cs = some (e, rest)) : exponent? (cs ++ w) = some (e, rest ++ w) := by
  cases cs with
  | nil =>
      obtain ⟨rfl, rfl⟩ := Prod.mk.inj (Option.some.inj h)
      exact exponent?_other fun c head => not_or.mpr (stop c head).2.2
  | cons c cs =>
      by_cases letter : c = 'e' ∨ c = 'E'
      · rw [exponent?_letter letter] at h
        obtain ⟨⟨ds, after⟩, read, same⟩ := Option.map_eq_some_iff.mp h
        obtain ⟨rfl, rfl⟩ := Prod.mk.inj same
        cases cs with
        | nil => contradiction
        | cons d cs =>
            rw [List.cons_append, exponent?_letter letter, signOf_append, digits_context stop read]
            rfl
      · have other (ds : List Char) : exponent? (c :: ds) = some (none, c :: ds) :=
          exponent?_other fun d head => Option.some.inj head ▸ letter
        obtain ⟨rfl, rfl⟩ := Prod.mk.inj (Option.some.inj ((other cs).symm.trans h))
        exact other (cs ++ w)

/-- A numeral behind its sign. -/
def unsigned (negative : Bool) (cs : List Char) : Option (Numeral × List Char) :=
  (digits cs).bind fun w => if w.1.head? = some '0' ∧ w.1.length ≠ 1 then none else
    (fraction? w.2).bind fun f => (exponent? f.2).bind fun e =>
      some (⟨negative, w.1, f.1, e.1⟩, e.2)

theorem scan_unsigned {c : Char} (minus : c ≠ '-') (cs : List Char) :
    scan (c :: cs) = unsigned false (c :: cs) := by
  unfold scan
  split
  next eq =>
    split at eq
    next same => exact absurd (List.cons.inj same).1 minus
    next =>
      obtain ⟨rfl, rfl⟩ := Prod.mk.inj eq
      rfl

theorem unsigned_context (stop : Ends w) {negative : Bool} {n : Numeral}
    (h : unsigned negative cs = some (n, rest)) :
    unsigned negative (cs ++ w) = some (n, rest ++ w) := by
  obtain ⟨⟨whole, a⟩, first, h⟩ := Option.bind_eq_some_iff.mp h
  split at h
  next => contradiction
  next lead =>
    obtain ⟨⟨f, b⟩, second, h⟩ := Option.bind_eq_some_iff.mp h
    obtain ⟨⟨e, c⟩, third, h⟩ := Option.bind_eq_some_iff.mp h
    obtain ⟨rfl, rfl⟩ := Prod.mk.inj (Option.some.inj h)
    rw [unsigned, digits_context stop first, Option.bind_some, if_neg lead,
      fraction_context stop second, Option.bind_some, exponent_context stop third,
      Option.bind_some]

theorem scan_context (stop : Ends w) {n : Numeral} (h : scan cs = some (n, rest)) :
    scan (cs ++ w) = some (n, rest ++ w) := by
  cases cs with
  | nil => contradiction
  | cons c cs =>
      by_cases minus : c = '-'
      · subst minus
        exact unsigned_context stop h
      · rw [scan_unsigned minus] at h
        rw [List.cons_append, scan_unsigned minus]
        exact unsigned_context stop h

/-- What begins with a numeral begins with a sign or a digit. -/
theorem head_of_scan {n : Numeral} (h : scan cs = some (n, rest)) :
    ∃ c ds, cs = c :: ds ∧ (c = '-' ∨ c.isDigit = true) := by
  cases cs with
  | nil => contradiction
  | cons c cs =>
      refine ⟨c, cs, rfl, or_iff_not_imp_left.mpr fun minus => ?_⟩
      rw [scan_unsigned minus] at h
      obtain ⟨⟨whole, a⟩, first, -⟩ := Option.bind_eq_some_iff.mp h
      by_contra letter
      rw [digits, List.takeWhile_cons_of_neg letter] at first
      contradiction

end Numeral

theorem readNumber_context (stop : Ends w) {t : Tree} (h : readNumber cs = (t, some rest)) :
    (∃ c ds, cs = c :: ds ∧ (c = '-' ∨ c.isDigit = true)) ∧
      readNumber (cs ++ w) = (t, some (rest ++ w)) := by
  unfold readNumber at h ⊢
  split at h
  next n after scanned =>
    refine ⟨Numeral.head_of_scan scanned, ?_⟩
    rw [Numeral.scan_context stop scanned]
    cases value : n.value with
    | none | some m =>
        rw [value] at h
        obtain ⟨rfl, same⟩ := Prod.mk.inj h
        obtain rfl := Option.some.inj same
        simp only [value]
  next => cases h

end Number

section Inversions

variable {fuel : Nat} {cs rest : List Char}

/-- Items that are read to their bracket: the last one, or one in front of others. -/
theorem readItems_eq_some_iff {ts : List Tree} :
    readItems (fuel + 1) cs = (ts, some rest) ↔
      ∃ t after, readTree fuel cs = (t, some after) ∧
        ((skipBlanks after = ']' :: rest ∧ ts = [t]) ∨
          ∃ more us, skipBlanks after = ',' :: more ∧ readItems fuel more = (us, some rest) ∧
            ts = t :: us) := by
  rw [readItems]
  constructor
  · intro h
    split at h
    next => cases h
    next t after read =>
      refine ⟨t, after, read, ?_⟩
      split at h
      next bracket =>
        obtain ⟨rfl, same⟩ := Prod.mk.inj h
        exact .inl ⟨Option.some.inj same ▸ bracket, rfl⟩
      next more comma =>
        obtain ⟨rfl, same⟩ := Prod.mk.inj h
        exact .inr ⟨more, _, comma, Prod.ext rfl same, rfl⟩
      next => cases h
  · rintro ⟨t, after, read, ⟨bracket, rfl⟩ | ⟨more, us, comma, others, rfl⟩⟩
    · simp only [read, bracket]
    · simp only [read, comma, others]

/-- Members that are read to their brace: the last one, or one in front of others. -/
theorem readMembers_eq_some_iff {ms : List (Name × Tree)} :
    readMembers (fuel + 1) cs = (ms, some rest) ↔
      ∃ quoted text after value t behind, skipBlanks cs = '"' :: quoted ∧
        readQuoted quoted = some (text, after) ∧ skipBlanks after = ':' :: value ∧
        readTree fuel value = (t, some behind) ∧
        ((skipBlanks behind = '\x7d' :: rest ∧
            ms = [(⟨text, quoted.takeWhile (· ≠ '"')⟩, t)]) ∨
          ∃ more ns, skipBlanks behind = ',' :: more ∧ readMembers fuel more = (ns, some rest) ∧
            ms = (⟨text, quoted.takeWhile (· ≠ '"')⟩, t) :: ns) := by
  rw [readMembers]
  constructor
  · intro h
    split at h
    next quoted quote =>
      dsimp only at h
      split at h
      next => cases h
      next text after named =>
        split at h
        next value colon =>
          split at h
          next => cases h
          next t behind read =>
            refine ⟨quoted, text, after, value, t, behind, quote, named, colon, read, ?_⟩
            split at h
            next brace =>
              obtain ⟨rfl, same⟩ := Prod.mk.inj h
              exact .inl ⟨Option.some.inj same ▸ brace, rfl⟩
            next more comma =>
              obtain ⟨rfl, same⟩ := Prod.mk.inj h
              exact .inr ⟨more, _, comma, Prod.ext rfl same, rfl⟩
            next => cases h
        next => cases h
    next => cases h
  · rintro ⟨quoted, text, after, value, t, behind, quote, named, colon, read,
      ⟨brace, rfl⟩ | ⟨more, ns, comma, others, rfl⟩⟩
    · simp only [quote, named, colon, read, brace]
    · simp only [quote, named, colon, read, comma, others]

/-- A string, with its text or with half a surrogate pair. -/
theorem readTree_string_iff {quoted : List Char} {t : Tree}
    (shape : skipBlanks cs = '"' :: quoted) :
    readTree (fuel + 1) cs = (t, some rest) ↔
      ∃ text, readQuoted quoted = some (text, rest) ∧ t = text.elim .flawed .string := by
  rw [readTree, shape]
  simp only
  constructor
  · intro h
    split at h
    next s after named =>
      obtain ⟨rfl, same⟩ := Prod.mk.inj h
      exact ⟨some s, Option.some.inj same ▸ named, rfl⟩
    next after named =>
      obtain ⟨rfl, same⟩ := Prod.mk.inj h
      exact ⟨none, Option.some.inj same ▸ named, rfl⟩
    next => cases h
  · rintro ⟨text | text, named, rfl⟩
    · rw [named]
      rfl
    · rw [named]
      rfl

/-- An array, empty or with items. -/
theorem readTree_array_iff {inner : List Char} {t : Tree} (shape : skipBlanks cs = '[' :: inner) :
    readTree (fuel + 1) cs = (t, some rest) ↔
      (skipBlanks inner = ']' :: rest ∧ t = .array [] true) ∨
        ((∀ more, skipBlanks inner ≠ ']' :: more) ∧
          ∃ ts, readItems fuel (skipBlanks inner) = (ts, some rest) ∧ t = .array ts true) := by
  rw [readTree, shape]
  simp only
  constructor
  · intro h
    split at h
    next after bracket =>
      obtain ⟨rfl, same⟩ := Prod.mk.inj h
      exact .inl ⟨Option.some.inj same ▸ bracket, rfl⟩
    next other =>
      obtain ⟨rfl, same⟩ := Prod.mk.inj h
      exact .inr ⟨other, _, Prod.ext rfl same, by rw [same]; rfl⟩
  · rintro (⟨bracket, rfl⟩ | ⟨other, ts, items, rfl⟩)
    · rw [bracket]
      rfl
    · split
      next more bracket => exact absurd bracket (other more)
      next =>
        rw [items]
        rfl

/-- An object, empty or with members. -/
theorem readTree_object_iff {inner : List Char} {t : Tree}
    (shape : skipBlanks cs = '\x7b' :: inner) :
    readTree (fuel + 1) cs = (t, some rest) ↔
      (skipBlanks inner = '\x7d' :: rest ∧ t = .object [] true) ∨
        ((∀ more, skipBlanks inner ≠ '\x7d' :: more) ∧
          ∃ ms, readMembers fuel (skipBlanks inner) = (ms, some rest) ∧ t = .object ms true) := by
  rw [readTree, shape]
  simp only
  constructor
  · intro h
    split at h
    next after brace =>
      obtain ⟨rfl, same⟩ := Prod.mk.inj h
      exact .inl ⟨Option.some.inj same ▸ brace, rfl⟩
    next other =>
      obtain ⟨rfl, same⟩ := Prod.mk.inj h
      exact .inr ⟨other, _, Prod.ext rfl same, by rw [same]; rfl⟩
  · rintro (⟨brace, rfl⟩ | ⟨other, ms, members, rfl⟩)
    · rw [brace]
      rfl
    · split
      next more brace => exact absurd brace (other more)
      next =>
        rw [members]
        rfl

/-- What is read as a string stands in quotes. -/
theorem quoted_of_readTree {s : String} (h : readTree (fuel + 1) cs = (.string s, some rest)) :
    ∃ quoted, skipBlanks cs = '"' :: quoted ∧ readQuoted quoted = some (some s, rest) := by
  have own := h
  rw [readTree] at h
  split at h
  case h_1 | h_2 | h_3 => cases h
  next quoted shape =>
    obtain ⟨text | text, named, same⟩ := (readTree_string_iff shape).mp own
    · contradiction
    · obtain rfl := Tree.string.inj same
      exact ⟨quoted, shape, named⟩
  next inner shape =>
    obtain ⟨-, same⟩ | ⟨-, ts, -, same⟩ := (readTree_array_iff shape).mp own
    all_goals contradiction
  next inner shape =>
    obtain ⟨-, same⟩ | ⟨-, ms, -, same⟩ := (readTree_object_iff shape).mp own
    all_goals contradiction
  next =>
    unfold readNumber at h
    split at h
    next =>
      split at h
      all_goals cases h
    next => cases h

end Inversions

section Contexts

variable {w : List Char}

theorem readTree_skipBlanks (fuel : Nat) (cs : List Char) :
    readTree (fuel + 1) (skipBlanks cs) = readTree (fuel + 1) cs := by
  rw [readTree, readTree, skipBlanks_skipBlanks]

theorem readMembers_skipBlanks (fuel : Nat) (cs : List Char) :
    readMembers (fuel + 1) (skipBlanks cs) = readMembers (fuel + 1) cs := by
  rw [readMembers, readMembers, skipBlanks_skipBlanks]

/-- Nothing is read of nothing. -/
theorem readItems_nil (fuel : Nat) : (readItems fuel []).2 = none := by
  cases fuel with
  | zero => rfl
  | succ fuel => cases fuel <;> rfl

theorem readMembers_nil (fuel : Nat) : (readMembers fuel []).2 = none := by
  cases fuel <;> rfl

/-- What goes on inside an array or an object goes on in front of other texts. -/
theorem skipBlanks_append_inside {inner : List Char} (some_left : skipBlanks inner ≠ [])
    {close : Char} (other : ∀ more, skipBlanks inner ≠ close :: more) :
    ∀ more, skipBlanks (inner ++ w) ≠ close :: more := by
  rw [skipBlanks_append w some_left]
  cases front : skipBlanks inner with
  | nil => exact absurd front some_left
  | cons c ds => exact fun more same => other ds (front.trans ((List.cons.inj same).1 ▸ rfl))

mutual

/-- A value is read as it is by itself, whatever stands behind it. The longer text comes with more
fuel. -/
theorem readTree_context (stop : Number.Ends w) : ∀ {fuel more : Nat} {cs rest : List Char}
    {t : Tree}, readTree fuel cs = (t, some rest) → fuel ≤ more →
      readTree more (cs ++ w) = (t, some (rest ++ w))
  | 0, _, _, _, _, read, _ => nomatch (Prod.mk.inj read).2
  | fuel + 1, more + 1, cs, rest, t, read, enough => by
    have less := Nat.le_of_succ_le_succ enough
    have own := read
    rw [readTree] at read
    split at read
    case h_1 shape | h_2 shape | h_3 shape =>
      obtain ⟨rfl, same⟩ := Prod.mk.inj read
      obtain rfl := Option.some.inj same
      rw [readTree, skipBlanks_append_cons w shape]
      rfl
    next quoted shape =>
      obtain ⟨text, named, rfl⟩ := (readTree_string_iff shape).mp own
      exact (readTree_string_iff (skipBlanks_append_cons w shape)).mpr
        ⟨text, readQuoted_append w named, rfl⟩
    next inner shape =>
      refine (readTree_array_iff (skipBlanks_append_cons w shape)).mpr ?_
      obtain ⟨bracket, rfl⟩ | ⟨other, ts, items, rfl⟩ := (readTree_array_iff shape).mp own
      · exact .inl ⟨skipBlanks_append_cons w bracket, rfl⟩
      · have some_left : skipBlanks inner ≠ [] := fun empty => by
          rw [empty] at items
          exact nomatch (readItems_nil fuel).symm.trans (congrArg Prod.snd items)
        refine .inr ⟨skipBlanks_append_inside some_left other, ts, ?_, rfl⟩
        rw [skipBlanks_append w some_left]
        exact readItems_context stop items less
    next inner shape =>
      refine (readTree_object_iff (skipBlanks_append_cons w shape)).mpr ?_
      obtain ⟨brace, rfl⟩ | ⟨other, ms, members, rfl⟩ := (readTree_object_iff shape).mp own
      · exact .inl ⟨skipBlanks_append_cons w brace, rfl⟩
      · have some_left : skipBlanks inner ≠ [] := fun empty => by
          rw [empty] at members
          exact nomatch (readMembers_nil fuel).symm.trans (congrArg Prod.snd members)
        refine .inr ⟨skipBlanks_append_inside some_left other, ms, ?_, rfl⟩
        rw [skipBlanks_append w some_left]
        exact readMembers_context stop members less
    next =>
      obtain ⟨⟨c, ds, shape, head⟩, there⟩ := Number.readNumber_context stop read
      rw [← readTree_skipBlanks, skipBlanks_append_cons w shape]
      rw [shape] at there
      exact (Number.readTree_of_head head (ds ++ w) more).trans there

theorem readItems_context (stop : Number.Ends w) : ∀ {fuel more : Nat} {cs rest : List Char}
    {ts : List Tree}, readItems fuel cs = (ts, some rest) → fuel ≤ more →
      readItems more (cs ++ w) = (ts, some (rest ++ w))
  | 0, _, _, _, _, read, _ => nomatch (Prod.mk.inj read).2
  | fuel + 1, more + 1, cs, rest, ts, read, enough => by
    have less := Nat.le_of_succ_le_succ enough
    obtain ⟨t, after, first, ⟨bracket, rfl⟩ | ⟨others, us, comma, later, rfl⟩⟩ :=
      readItems_eq_some_iff.mp read
    · exact readItems_eq_some_iff.mpr ⟨t, after ++ w, readTree_context stop first less,
        .inl ⟨skipBlanks_append_cons w bracket, rfl⟩⟩
    · exact readItems_eq_some_iff.mpr ⟨t, after ++ w, readTree_context stop first less,
        .inr ⟨others ++ w, us, skipBlanks_append_cons w comma, readItems_context stop later less,
          rfl⟩⟩

theorem readMembers_context (stop : Number.Ends w) : ∀ {fuel more : Nat} {cs rest : List Char}
    {ms : List (Name × Tree)}, readMembers fuel cs = (ms, some rest) → fuel ≤ more →
      readMembers more (cs ++ w) = (ms, some (rest ++ w))
  | 0, _, _, _, _, read, _ => nomatch (Prod.mk.inj read).2
  | fuel + 1, more + 1, cs, rest, ms, read, enough => by
    have less := Nat.le_of_succ_le_succ enough
    obtain ⟨quoted, text, after, value, t, behind, quote, named, colon, first, last⟩ :=
      readMembers_eq_some_iff.mp read
    have spelling := takeWhile_append_of_readQuoted w named
    refine readMembers_eq_some_iff.mpr ⟨quoted ++ w, text, after ++ w, value ++ w, t, behind ++ w,
      skipBlanks_append_cons w quote, readQuoted_append w named, skipBlanks_append_cons w colon,
      readTree_context stop first less, ?_⟩
    rw [spelling]
    obtain ⟨brace, rfl⟩ | ⟨others, ns, comma, later, rfl⟩ := last
    · exact .inl ⟨skipBlanks_append_cons w brace, rfl⟩
    · exact .inr ⟨others ++ w, ns, skipBlanks_append_cons w comma,
        readMembers_context stop later less, rfl⟩

end

end Contexts

end ThreatGossip.Json

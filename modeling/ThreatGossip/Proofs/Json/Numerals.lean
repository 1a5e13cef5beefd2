import ThreatGossip.Json.Reader
/-!
Written numbers are read back as far as they reach. A numeral in proper form is split off in front
of anything that does not go on with it. Integers of the 64-bit ranges come back as they are, and
the text of a double is a proper numeral or `null`.
-/
namespace ThreatGossip.Json.Number

/-- At least one digit and nothing else. -/
def Digits (ds : List Char) : Prop := ds ≠ [] ∧ ∀ c ∈ ds, c.isDigit = true

/-- Nothing at the front goes on with a number. -/
def Ends (rest : List Char) : Prop :=
  ∀ c, rest.head? = some c → c.isDigit = false ∧ c ≠ '.' ∧ c ≠ 'e' ∧ c ≠ 'E'

theorem ends_nil : Ends [] := fun _ head => nomatch head

theorem ends_cons {c : Char} {rest : List Char} (digit : c.isDigit = false) (point : c ≠ '.')
    (lower : c ≠ 'e') (upper : c ≠ 'E') : Ends (c :: rest) := by
  intro d head
  obtain rfl := Option.some.inj head
  exact ⟨digit, point, lower, upper⟩

theorem digits_toDigits (n : Nat) : Digits (Nat.toDigits 10 n) :=
  ⟨Nat.toDigits_ne_nil, fun _ member => Nat.isDigit_of_mem_toDigits (by omega) (by omega) member⟩

theorem head?_toDigits {n : Nat} (pos : 0 < n) : (Nat.toDigits 10 n).head? ≠ some '0' := by
  induction n using Nat.strongRecOn with
  | ind n ih =>
      by_cases small : n < 10
      · rw [Nat.toDigits_of_lt_base small]
        have zero : ∀ d < 10, 0 < d → [d.digitChar].head? ≠ some '0' := by decide
        exact zero n small pos
      · rw [Nat.toDigits_of_base_le (by omega) (by omega), List.head?_append]
        cases head : (Nat.toDigits 10 (n / 10)).head? with
        | none => exact absurd (List.head?_eq_none_iff.mp head) Nat.toDigits_ne_nil
        | some c =>
            have earlier := ih (n / 10) (by omega) (by omega)
            rwa [head] at earlier

namespace Numeral

/-- The parts stand as the grammar wants them. -/
structure Proper (n : Numeral) : Prop where
  whole : Digits n.whole
  lead : n.whole.head? = some '0' → n.whole.length = 1
  fraction : ∀ ds, n.fraction = some ds → Digits ds
  exponent : ∀ e, n.exponent = some e → Digits e.2

def fractionText : Option (List Char) → List Char
  | none => []
  | some ds => '.' :: ds

def exponentText : Option (Bool × List Char) → List Char
  | none => []
  | some (negative, ds) => 'e' :: (if negative then '-' else '+') :: ds

/-- A numeral as it is written. -/
def spelling (n : Numeral) : List Char :=
  (if n.negative then ['-'] else []) ++
    (n.whole ++ (fractionText n.fraction ++ exponentText n.exponent))

theorem digits_append {ds rest : List Char} (h : Digits ds)
    (stop : ∀ c, rest.head? = some c → c.isDigit = false) :
    digits (ds ++ rest) = some (ds, rest) := by
  have taken : (ds ++ rest).takeWhile Char.isDigit = ds := by
    rw [List.takeWhile_append_of_pos h.2]
    cases rest with
    | nil => simp
    | cons c rest => simp [stop c rfl]
  have dropped : (ds ++ rest).dropWhile Char.isDigit = rest := by
    rw [List.dropWhile_append_of_pos h.2]
    cases rest with
    | nil => rfl
    | cons c rest => simp [stop c rfl]
  unfold digits
  rw [taken, dropped]
  cases ds with
  | nil => exact absurd rfl h.1
  | cons d ds => rfl

theorem fraction?_append {f : Option (List Char)} {rest : List Char}
    (h : ∀ ds, f = some ds → Digits ds)
    (stop : ∀ c, rest.head? = some c → c.isDigit = false ∧ c ≠ '.') :
    fraction? (fractionText f ++ rest) = some (f, rest) := by
  cases f with
  | none =>
      change fraction? rest = _
      unfold fraction?
      split
      next => exact absurd rfl (stop '.' rfl).2
      next => rfl
  | some ds =>
      change (digits (ds ++ rest)).map _ = _
      rw [digits_append (h ds rfl) fun c head => (stop c head).1]
      rfl

theorem exponent?_append {e : Option (Bool × List Char)} {rest : List Char}
    (h : ∀ p, e = some p → Digits p.2) (stop : Ends rest) :
    exponent? (exponentText e ++ rest) = some (e, rest) := by
  cases e with
  | none =>
      change exponent? rest = _
      unfold exponent?
      split
      next c cs =>
        obtain ⟨-, -, lower, upper⟩ := stop c rfl
        rw [if_neg (not_or.mpr ⟨lower, upper⟩)]
      next => rfl
  | some p =>
      obtain ⟨negative, ds⟩ := p
      have read := digits_append (h _ rfl) fun c head => (stop c head).1
      cases negative with
      | true =>
          change (digits (ds ++ rest)).map _ = _
          rw [read]
          rfl
      | false =>
          change (digits (ds ++ rest)).map _ = _
          rw [read]
          rfl

theorem exponentText_stops (e : Option (Bool × List Char)) {rest : List Char} (stop : Ends rest) :
    ∀ c, (exponentText e ++ rest).head? = some c → c.isDigit = false ∧ c ≠ '.' := by
  cases e with
  | none => exact fun c head => ⟨(stop c head).1, (stop c head).2.1⟩
  | some p =>
      intro c head
      obtain rfl := Option.some.inj head
      decide

theorem fractionText_stops (f : Option (List Char)) {rest : List Char}
    (stop : ∀ c, rest.head? = some c → c.isDigit = false ∧ c ≠ '.') :
    ∀ c, (fractionText f ++ rest).head? = some c → c.isDigit = false := by
  cases f with
  | none => exact fun c head => (stop c head).1
  | some ds =>
      intro c head
      obtain rfl := Option.some.inj head
      decide

/-- A proper numeral is split off in front of anything that does not go on with it. -/
theorem scan_spelling {n : Numeral} (h : n.Proper) {rest : List Char} (stop : Ends rest) :
    scan (n.spelling ++ rest) = some (n, rest) := by
  obtain ⟨negative, whole, fraction, exponent⟩ := n
  have after := exponentText_stops exponent stop
  have tail : ((digits (whole ++ (fractionText fraction ++ (exponentText exponent ++ rest)))).bind
      fun w => if w.1.head? = some '0' ∧ w.1.length ≠ 1 then none else
        (fraction? w.2).bind fun f => (exponent? f.2).bind fun e =>
          some ((⟨negative, w.1, f.1, e.1⟩ : Numeral), e.2)) =
        some (⟨negative, whole, fraction, exponent⟩, rest) := by
    rw [digits_append h.whole (fractionText_stops fraction after), Option.bind_some,
      if_neg fun both => both.2 (h.lead both.1), fraction?_append h.fraction after,
      Option.bind_some, exponent?_append h.exponent stop, Option.bind_some]
  cases negative with
  | true =>
      simp only [spelling, List.append_assoc, if_pos]
      exact tail
  | false =>
      simp only [spelling, List.append_assoc]
      obtain ⟨nonempty, digit⟩ := h.whole
      cases whole with
      | nil => exact absurd rfl nonempty
      | cons d ds =>
          have minus : d ≠ '-' := by
            rintro rfl
            exact absurd (digit '-' List.mem_cons_self) (by decide)
          unfold scan
          split
          next eq =>
            split at eq
            next same => exact absurd (List.cons.inj same).1 minus
            next =>
              obtain ⟨rfl, rfl⟩ := Prod.mk.inj eq
              exact tail

end Numeral

section Integers

open Numeral

/-- An integer as a numeral. -/
def wholeNumeral (i : Int) : Numeral := ⟨i < 0, Nat.toDigits 10 i.natAbs, none, none⟩

theorem text_integer (i : Int) : text (.integer i) = (wholeNumeral i).spelling := by
  simp only [text, wholeNumeral, spelling, fractionText, exponentText, List.append_nil,
    decide_eq_true_eq]
  split <;> simp

theorem proper_wholeNumeral (i : Int) : (wholeNumeral i).Proper := by
  refine ⟨digits_toDigits _, ?_, fun _ eq => (nomatch eq), fun _ eq => (nomatch eq)⟩
  intro lead
  rcases Nat.eq_zero_or_pos i.natAbs with zero | pos
  · simp [wholeNumeral, zero]
  · exact absurd lead (head?_toDigits pos)

theorem le_ofDigitChars (ds : List Char) (n : Nat) : n ≤ Nat.ofDigitChars 10 ds n := by
  induction ds generalizing n with
  | nil => exact Nat.le_refl n
  | cons d ds ih =>
      rw [Nat.ofDigitChars_cons]
      exact Nat.le_trans (by omega) (ih _)

theorem gather_eq {ds : List Char} {n : Nat} (fits : Nat.ofDigitChars 10 ds n < UInt64.size) :
    gather n ds = (Nat.ofDigitChars 10 ds n, []) := by
  induction ds generalizing n with
  | nil => rfl
  | cons d ds ih =>
      rw [Nat.ofDigitChars_cons, Nat.mul_comm] at fits ⊢
      rw [gather]
      rw [if_pos (Nat.lt_of_le_of_lt (le_ofDigitChars ds _) fits)]
      exact ih fits

theorem value_wholeNumeral {i : Int} (low : minSigned ≤ i) (high : i ≤ maxCount.toNat) :
    (wholeNumeral i).value = some (.integer i) := by
  have fits : i.natAbs < UInt64.size := by
    simp [minSigned, maxCount, UInt64.size] at *
    omega
  have read : gather 0 (Nat.toDigits 10 i.natAbs) = (i.natAbs, []) := by
    rw [gather_eq] <;> rw [Nat.ofDigitChars_ten_toDigits]
    exact fits
  simp only [value, wholeNumeral, read]
  by_cases negative : i < 0
  · rw [decide_eq_true negative, ofWhole, if_neg (by simp), if_neg (by omega)]
    congr 2
    omega
  · rw [decide_eq_false negative, ofWhole, if_pos (by simp)]
    congr 2
    omega

end Integers

end ThreatGossip.Json.Number

namespace ThreatGossip.Decimal

/-- Zero lies below everything that rounds to a positive double. -/
theorem Interval.digits_of_contains {b : Binary} (pos : 0 < b.mantissa) {s : Scaled}
    (inside : b.interval.contains s.ratio = true) : 0 < s.digits := by
  rcases Nat.eq_zero_or_pos s.digits with zero | pos_digits
  · have low : 0 < b.interval.low.num * s.ratio.den := by
      refine Nat.mul_pos (Nat.mul_pos ?_ (Nat.pow_pos (by decide))) (Nat.pow_pos (by decide))
      split <;> omega
    have num : s.ratio.num = 0 := by simp [Scaled.ratio, zero]
    simp only [Interval.contains, Ratio.le, Ratio.lt, num, Nat.zero_mul] at inside
    split at inside
    all_goals
      have below := of_decide_eq_true (Bool.and_eq_true_iff.mp inside).1
      omega
  · exact pos_digits

theorem contains_of_onGrid {i : Interval} {r : Ratio} {n : Nat} {s : Scaled}
    (found : onGrid i r n = some s) : i.contains s.ratio = true := by
  unfold onGrid at found
  simp only at found
  split at found
  next down up =>
    split at found
    · exact Option.some.inj found ▸ down
    · exact Option.some.inj found ▸ up
  next down _ => exact Option.some.inj found ▸ down
  next _ up => exact Option.some.inj found ▸ up
  next => contradiction

/-- The shortest decimal of a positive double has a digit above zero, unless the search for it ran
out. -/
theorem digits_shortest {bits : UInt64} (pos : 0 < (Binary.ofBits bits).mantissa) :
    0 < (shortest bits).digits ∨ shortest bits = ⟨0, 0⟩ := by
  unfold shortest
  cases found : (List.range' 1 17).findSome? (onGrid (Binary.ofBits bits).interval
    (.scaled2 (Binary.ofBits bits).mantissa (Binary.ofBits bits).exponent)) with
  | none => simp [found]
  | some s =>
      obtain ⟨n, -, grid⟩ := List.exists_of_findSome?_eq_some found
      left
      simpa [found] using Interval.digits_of_contains pos (contains_of_onGrid grid)

theorem mantissa_ofBits {magnitude : Nat} (pos : 0 < magnitude)
    (bound : magnitude < Binary.signUnit) :
    0 < (Binary.ofBits (.ofNat magnitude)).mantissa := by
  have nat : (UInt64.ofNat magnitude).toNat = magnitude := by
    refine UInt64.toNat_ofNat_of_lt' ?_
    simp only [Binary.signUnit, UInt64.size] at *
    omega
  unfold Binary.ofBits Binary.field
  simp only [nat, Nat.mod_eq_of_lt bound]
  split
  next zero =>
    rw [Nat.div_eq_zero_iff] at zero
    simp only [Binary.fieldUnit] at *
    omega
  next =>
    simp only [Binary.fieldUnit]
    omega

end ThreatGossip.Decimal

namespace ThreatGossip.Json.Number

section Doubles

open Numeral

theorem digits_cons {d : Char} {ds : List Char} (first : d.isDigit = true)
    (rest : ∀ c ∈ ds, c.isDigit = true) : Digits (d :: ds) :=
  ⟨List.cons_ne_nil d ds, List.forall_mem_cons.mpr ⟨first, rest⟩⟩

theorem digits_zero : Digits ['0'] := digits_cons (by decide) (by simp)

theorem trim_cons {d : Char} (ne : d ≠ '0') (ds : List Char) :
    ((d :: ds).reverse.dropWhile (· == '0')).reverse =
      d :: (ds.reverse.dropWhile (· == '0')).reverse := by
  rw [List.reverse_cons, List.dropWhile_append]
  split
  next none =>
    rw [List.isEmpty_iff.mp none]
    simp [ne]
  next => simp

theorem trim_toDigits {n : Nat} (pos : 0 < n) :
    ∃ d ds, ((Nat.toDigits 10 n).reverse.dropWhile (· == '0')).reverse = d :: ds ∧ d ≠ '0' ∧
      Digits (d :: ds) := by
  obtain ⟨nonempty, digit⟩ := digits_toDigits n
  have lead := head?_toDigits pos
  cases shape : Nat.toDigits 10 n with
  | nil => exact absurd shape nonempty
  | cons d ds =>
      rw [shape] at digit lead
      have ne : d ≠ '0' := fun same => lead (same ▸ rfl)
      refine ⟨d, _, trim_cons ne ds, ne,
        digits_cons (digit d List.mem_cons_self) fun c member => ?_⟩
      have kept := (List.dropWhile_sublist _).mem (List.mem_reverse.mp member)
      exact digit c (List.mem_cons_of_mem d (List.mem_reverse.mp kept))

/-- A positive decimal is written as a proper numeral. -/
theorem decimalText_spelled {s : Decimal.Scaled} (pos : 0 < s.digits) :
    ∃ n : Numeral, n.Proper ∧ n.negative = false ∧ decimalText s = n.spelling := by
  obtain ⟨d, ds, trimmed, ne, digit⟩ := trim_toDigits pos
  have zero : '0'.isDigit = true := by decide
  unfold decimalText
  simp only [trimmed]
  generalize s.exponent + ((Nat.toDigits 10 s.digits).length : Int) - 1 = e
  split
  next =>
    split
    next =>
      refine ⟨⟨false, ['0'], some (List.replicate (-e - 1).toNat '0' ++ d :: ds), none⟩,
        ⟨digits_zero, fun _ => rfl, ?_, by simp⟩, rfl,
        by simp [spelling, fractionText, exponentText]⟩
      rintro _ ⟨⟩
      refine ⟨by simp, fun c member => ?_⟩
      rcases List.mem_append.mp member with padding | member
      · rw [List.eq_of_mem_replicate padding]
        exact zero
      · exact digit.2 c member
    next =>
      rw [List.take_succ_cons, List.drop_succ_cons]
      have tail : ∀ c ∈ ds, c.isDigit = true := fun c member =>
        digit.2 c (List.mem_cons_of_mem d member)
      refine ⟨⟨false,
        d :: (ds.take e.toNat ++ List.replicate (e.toNat + 1 - (d :: ds).length) '0'),
        some (if (ds.drop e.toNat).isEmpty then ['0'] else ds.drop e.toNat), none⟩,
        ⟨?_, ?_, ?_, by simp⟩, rfl, by simp [spelling, fractionText, exponentText]⟩
      · refine digits_cons (digit.2 d List.mem_cons_self) fun c member => ?_
        rcases List.mem_append.mp member with taken | padding
        · exact tail c (List.mem_of_mem_take taken)
        · rw [List.eq_of_mem_replicate padding]
          exact zero
      · exact fun lead => absurd (Option.some.inj lead) ne
      · rintro _ ⟨⟩
        split
        next => exact digits_zero
        next some_left =>
          exact ⟨fun none => some_left (List.isEmpty_iff.mpr none), fun c member =>
            tail c (List.mem_of_mem_drop member)⟩
  next =>
    have power : ∀ p, some (decide (e < 0), Nat.toDigits 10 e.natAbs) = some p → Digits p.2 := by
      rintro _ ⟨⟩
      exact digits_toDigits _
    have first := digit.2 d List.mem_cons_self
    cases ds with
    | nil =>
        refine ⟨⟨false, [d], none, some (e < 0, Nat.toDigits 10 e.natAbs)⟩,
          ⟨digit, fun _ => rfl, by simp, power⟩, rfl, ?_⟩
        simp [spelling, fractionText, exponentText]
    | cons f fs =>
        refine ⟨⟨false, [d], some (f :: fs), some (e < 0, Nat.toDigits 10 e.natAbs)⟩,
          ⟨digits_cons first (by simp), fun _ => rfl, ?_, power⟩, rfl, ?_⟩
        · rintro _ ⟨⟩
          exact digits_cons (digit.2 f (by simp)) fun c member => digit.2 c (by simp [member])
        · simp [spelling, fractionText, exponentText]

/-- A double is written as a proper numeral, or as `null` when it is no number. -/
theorem doubleText_spelled (x : Float) :
    doubleText x = "null".toList ∨ ∃ n : Numeral, n.Proper ∧ doubleText x = n.spelling := by
  unfold doubleText
  simp only
  split
  next => exact .inl rfl
  next =>
    right
    have bound := Nat.mod_lt x.toBits.toNat (show 0 < Decimal.Binary.signUnit by decide)
    have zero : ∃ n : Numeral, n.Proper ∧ n.negative = false ∧ "0.0".toList = n.spelling :=
      ⟨⟨false, ['0'], some ['0'], none⟩,
        ⟨digits_zero, fun _ => rfl, by rintro _ ⟨⟩; exact digits_zero, by simp⟩, rfl, rfl⟩
    have spelled : ∃ n : Numeral, n.Proper ∧ n.negative = false ∧
        (if x.toBits.toNat % Decimal.Binary.signUnit = 0 then "0.0".toList
          else decimalText (Decimal.shortest
            (.ofNat (x.toBits.toNat % Decimal.Binary.signUnit)))) = n.spelling := by
      split
      next => exact zero
      next above =>
        rcases Decimal.digits_shortest
          (Decimal.mantissa_ofBits (Nat.pos_of_ne_zero above) bound) with pos | none
        · exact decimalText_spelled pos
        · rw [none]
          exact zero
    obtain ⟨n, proper, unsigned, text⟩ := spelled
    rw [text]
    split
    next => exact ⟨n, proper, rfl⟩
    next =>
      refine ⟨{ n with negative := true }, ⟨proper.whole, proper.lead, proper.fraction,
        proper.exponent⟩, ?_⟩
      simp [spelling, unsigned]

end Doubles

end ThreatGossip.Json.Number

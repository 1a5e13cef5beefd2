import Mathlib.Data.List.TakeWhile
import ThreatGossip.Proofs.Json.Yields
/-!
Maps whose member names are integers. A name that spells a signed 64-bit integer is read as that
integer, so such a map comes back when its values do; and whatever is read has no other keys.
-/
namespace ThreatGossip.Json

/-- Characters that stand for themselves are written as they are. -/
theorem spellingOf_eq_self {s : List Char} (plain : ∀ c ∈ s, escapeChar c = [c]) :
    spellingOf s = s := by
  have written : s.flatMap escapeChar = s := by
    rw [List.flatMap_congr plain]
    exact List.flatMap_singleton' s
  rw [spellingOf, written, List.takeWhile_eq_self_iff]
  intro c listed
  refine decide_eq_true fun quote => ?_
  have same := plain c listed
  subst quote
  contradiction

theorem escapeChar_digit {c : Char} (h : c = '-' ∨ c.isDigit = true) : escapeChar c = [c] := by
  have other {d : Char} := Number.ne_of_head h (d := d)
  have printed : ¬c.toNat < 0x20 := by
    rcases h with rfl | digit
    · decide
    · simp only [Char.isDigit, Bool.and_eq_true, decide_eq_true_eq, ge_iff_le,
        UInt32.le_iff_toNat_le] at digit
      exact fun low => absurd (Nat.lt_of_le_of_lt digit.1 low) (by decide)
  simp only [escapeChar, other (d := '"') (by decide) (by decide),
    other (d := '\\') (by decide) (by decide), other (d := '\n') (by decide) (by decide),
    other (d := '\r') (by decide) (by decide), other (d := '\t') (by decide) (by decide),
    other (d := '\x08') (by decide) (by decide), other (d := '\x0c') (by decide) (by decide),
    printed, if_false]

theorem plain_text_integer (i : Int) : ∀ c ∈ Number.text (.integer i), escapeChar c = [c] := by
  have digit : ∀ c ∈ Nat.toDigits 10 i.natAbs, c = '-' ∨ c.isDigit = true :=
    fun c listed => .inr ((Number.digits_toDigits i.natAbs).2 c listed)
  intro c listed
  refine escapeChar_digit ?_
  rw [Number.text] at listed
  split at listed
  · rcases List.mem_cons.mp listed with minus | later
    · exact .inl minus
    · exact digit c later
  · exact digit c listed

/-- The member name of an integer. -/
def integerName (i : Int) : String := String.ofList (Number.text (.integer i))

namespace Format

/-- The name of a signed 64-bit integer is read as the integer. -/
theorem keyInteger_integerName {i : Int} (low : minSigned ≤ i) (high : i ≤ maxSigned) :
    keyInteger (Name.ofString (integerName i)).spelling = .ok i := by
  have spelled : (Name.ofString (integerName i)).spelling = (Number.wholeNumeral i).spelling := by
    rw [Name.ofString, integerName, String.toList_ofList,
      spellingOf_eq_self (plain_text_integer i), Number.text_integer]
  have scanned := Number.Numeral.scan_spelling (Number.proper_wholeNumeral i) Number.ends_nil
  have value := Number.value_wholeNumeral low (Int.le_trans high (by decide))
  rw [List.append_nil] at scanned
  simp only [keyInteger, spelled, scanned, value, if_true]
  rw [if_neg (by omega)]

/-- What is read as a key is a signed 64-bit integer. -/
theorem bounds_of_keyInteger {cs : List Char} {i : Int} (h : keyInteger cs = .ok i) :
    minSigned ≤ i ∧ i ≤ maxSigned := by
  unfold keyInteger at h
  split at h
  next => contradiction
  next =>
    split at h
    next => contradiction
    next => contradiction
    next =>
      split at h
      next => contradiction
      next within =>
        split at h
        next =>
          obtain rfl := Except.ok.inj h
          omega
        next => contradiction

variable {α : Type} {f : Format α} {fit : α → Prop}

/-- A key that a member name can spell, with a fit value. -/
def FitEntry (fit : α → Prop) (e : Int × α) : Prop :=
  (minSigned ≤ e.1 ∧ e.1 ≤ maxSigned) ∧ fit e.2

theorem writesPlain_integerMap (h : f.WritesPlain) : (integerMap f).WritesPlain := by
  intro m
  refine Tree.plain_record fun n member => ?_
  obtain ⟨e, -, rfl⟩ := List.mem_map.mp member
  exact h e.2

theorem RoundTrips.readIntegerMembers_spelled (h : f.RoundTrips fit) {room : Nat}
    {es fs : List (Int × α)} (ok : ∀ e ∈ es, FitEntry fit e) :
    readIntegerMembers (f.read room)
        (spelled (es.map fun e => (integerName e.1, f.write e.2))) = .ok fs ↔
      fs = es ∧ ∀ e ∈ es, (f.write e.2).depth ≤ room := by
  induction es generalizing fs with
  | nil => simp [spelled, readIntegerMembers, eq_comm]
  | cons e es ih =>
      obtain ⟨⟨⟨low, high⟩, first⟩, others⟩ := List.forall_mem_cons.mp ok
      have head (b : α) : f.read room (f.write e.2).reread = .ok b ↔
          b = e.2 ∧ (f.write e.2).depth ≤ room := h.returns room e.2 b first
      change (do
        let i ← keyInteger (Name.ofString (integerName e.1)).spelling
        let b ← f.read room (f.write e.2).reread
        let bs ← readIntegerMembers (f.read room)
          (spelled (es.map fun e : Int × α => (integerName e.1, f.write e.2)))
        Except.ok ((i, b) :: bs)) = .ok fs ↔ _
      rw [List.forall_mem_cons, keyInteger_integerName low high]
      simp only [bind_eq_ok_iff, head, ih others, Except.ok.injEq]
      constructor
      · rintro ⟨i, rfl, b, ⟨rfl, fits⟩, bs, ⟨rfl, deep⟩, rfl⟩
        exact ⟨rfl, fits, deep⟩
      · rintro ⟨rfl, fits, deep⟩
        exact ⟨e.1, rfl, e.2, ⟨rfl, fits⟩, es, ⟨rfl, deep⟩, rfl⟩

theorem RoundTrips.integerMap (h : f.RoundTrips fit) :
    (integerMap f).RoundTrips fun m => ∀ e ∈ m.entries, FitEntry fit e where
  stable m ok := by
    refine Tree.reread_record_eq_self fun n member => ?_
    obtain ⟨e, inside, rfl⟩ := List.mem_map.mp member
    exact h.stable e.2 (ok e inside).2
  returns room m n ok := by
    unfold Returns
    simp only [Format.integerMap, reread_record]
    cases room with
    | zero =>
        simp only [Tree.not_depth_record_le_zero, and_false]
        exact iff_of_false (fun came => by cases came) id
    | succ room =>
        rw [Tree.depth_record_le, List.forall_mem_map]
        change (readIntegerMembers (f.read room)
          (spelled (m.entries.map fun e => (integerName e.1, f.write e.2))) >>= fun es =>
            Except.ok (SortedMap.ofList es)) = .ok n ↔ _
        simp only [bind_eq_ok_iff, h.readIntegerMembers_spelled ok, Except.ok.injEq]
        have own : SortedMap.ofList m.entries = m :=
          SortedMap.eq_of_entries (SortedMap.entries_ofList m.ascending)
        constructor
        · rintro ⟨es, ⟨rfl, deep⟩, rfl⟩
          exact ⟨own, deep⟩
        · rintro ⟨rfl, deep⟩
          exact ⟨n.entries, ⟨rfl, deep⟩, own⟩

/-- Every key that was read is a signed 64-bit integer. -/
theorem bounds_of_readIntegerMembers {read : Tree → Except Fault α} {ms : List (Name × Tree)}
    {es : List (Int × α)} (came : readIntegerMembers read ms = .ok es) :
    ∀ e ∈ es, minSigned ≤ e.1 ∧ e.1 ≤ maxSigned := by
  induction ms generalizing es with
  | nil =>
      obtain rfl := Except.ok.inj came
      exact nofun
  | cons m ms ih =>
      obtain ⟨i, key, came⟩ := bind_eq_ok_iff.mp came
      obtain ⟨b, -, came⟩ := bind_eq_ok_iff.mp came
      obtain ⟨es, others, came⟩ := bind_eq_ok_iff.mp came
      obtain rfl := Except.ok.inj came
      exact List.forall_mem_cons.mpr ⟨bounds_of_keyInteger key, ih others⟩

theorem yields_integerMap (f : Format α) :
    (integerMap f).Yields fun _ m => ∀ e ∈ m.entries, minSigned ≤ e.1 ∧ e.1 ≤ maxSigned := by
  intro room t m integral read
  match room, t with
  | room + 1, .object ms closed =>
      obtain ⟨es, came, closing⟩ := bind_eq_ok_iff.mp read
      split at closing
      next =>
        obtain rfl := Except.ok.inj closing
        exact SortedMap.forall_keys_ofList (P := fun i => minSigned ≤ i ∧ i ≤ maxSigned)
          (bounds_of_readIntegerMembers came)
      next => contradiction
  | 0, .object _ _ => contradiction
  | _, .null | _, .boolean _ | _, .number _ | _, .string _ | _, .array _ _ | _, .flawed
  | _, .broken => simp [Format.integerMap] at read

end Format

end ThreatGossip.Json

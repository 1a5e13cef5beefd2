import ThreatGossip.Json.Reader
/-!
Written strings are read back. What is written for one character is read as that character, and so a
string is read back with its quotes, and a name with its spelling.
-/
namespace ThreatGossip.Json

theorem fourHex?_control : ∀ n < 32,
    fourHex? '0' '0' (hexDigit (n / 16)) (hexDigit (n % 16)) = some n := by
  decide

/-- What is written for a character is read as that character. -/
theorem scanQuoted_escapeChar (c : Char) (read : List Nat) (rest : List Char) :
    scanQuoted read (escapeChar c ++ rest) = scanQuoted (c.toNat :: read) rest := by
  unfold escapeChar
  split
  next same => subst same; rfl
  split
  next same => subst same; rfl
  split
  next same => subst same; rfl
  split
  next same => subst same; rfl
  split
  next same => subst same; rfl
  split
  next same => subst same; rfl
  split
  next same => subst same; rfl
  split
  next control =>
    change scanQuoted read ('\\' :: 'u' :: '0' :: '0' :: hexDigit _ :: hexDigit _ :: rest) = _
    rw [scanQuoted, fourHex?_control _ control]
  next quote backslash _ _ _ _ _ printed =>
    change scanQuoted read (c :: rest) = _
    rw [scanQuoted.eq_def]
    split
    next eq => exact absurd (List.cons.inj eq).1 quote
    next eq => exact absurd (List.cons.inj eq).1 backslash
    next eq => exact absurd (List.cons.inj eq).1 backslash
    next eq =>
      obtain ⟨rfl, rfl⟩ := List.cons.inj eq
      rw [if_neg (not_or.mpr ⟨printed, backslash⟩)]
    next eq => nomatch eq

theorem quoteOnto_eq (s rest : List Char) :
    quoteOnto s rest = '"' :: (s.flatMap escapeChar ++ '"' :: rest) := by
  unfold quoteOnto
  congr 1
  induction s with
  | nil => rfl
  | cons c s ih => rw [List.foldr_cons, ih, List.flatMap_cons, List.append_assoc]

theorem scanQuoted_written (s rest : List Char) (read : List Nat) :
    scanQuoted read (s.flatMap escapeChar ++ '"' :: rest) =
      some ((s.map Char.toNat).reverse ++ read, rest) := by
  induction s generalizing read with
  | nil => rfl
  | cons c s ih =>
      rw [List.flatMap_cons, List.append_assoc, scanQuoted_escapeChar, ih]
      simp

/-- No character is half a surrogate pair. -/
theorem joinHalves_toNat (text : List Char) (c : Char) (rest : List Nat) :
    joinHalves text (c.toNat :: rest) = joinHalves (c :: text) rest := by
  have whole : c.toNat < 0xd800 ∨ 0xe000 ≤ c.toNat := by
    rcases c.valid with low | high
    · exact .inl low
    · exact .inr (Nat.le_of_lt_succ (Nat.succ_lt_succ high.1))
  have high : isHighHalf c.toNat = false := by
    simp only [isHighHalf, Bool.and_eq_false_iff, decide_eq_false_iff_not]
    omega
  have low : isLowHalf c.toNat = false := by
    simp only [isLowHalf, Bool.and_eq_false_iff, decide_eq_false_iff_not]
    omega
  rw [joinHalves.eq_def]
  simp [high, low]

theorem joinHalves_append (s text : List Char) (rest : List Nat) :
    joinHalves text ((s.map Char.toNat).reverse ++ rest) = joinHalves (s ++ text) rest := by
  induction s generalizing rest with
  | nil => rfl
  | cons c s ih =>
      rw [List.map_cons, List.reverse_cons, List.append_assoc, List.singleton_append, ih,
        joinHalves_toNat]
      rfl

theorem joinHalves_written (s : List Char) :
    joinHalves [] (s.map Char.toNat).reverse = some s := by
  have joined := joinHalves_append s [] []
  rwa [List.append_nil, List.append_nil, joinHalves] at joined

/-- A written string is read back after its opening quote. -/
theorem readQuoted_written (s : String) (rest : List Char) :
    readQuoted (s.toList.flatMap escapeChar ++ '"' :: rest) = some (some s, rest) := by
  rw [readQuoted, scanQuoted_written]
  simp [joinHalves_written]

/-- A written string and what follows it are known by the text. -/
theorem quoteOnto_inj {s t : String} {rest more : List Char}
    (h : quoteOnto s.toList rest = quoteOnto t.toList more) : s = t ∧ rest = more := by
  rw [quoteOnto_eq, quoteOnto_eq] at h
  have read := readQuoted_written s rest
  rw [(List.cons.inj h).2, readQuoted_written, Option.some.injEq, Prod.mk.injEq,
    Option.some.injEq] at read
  exact ⟨read.1.symm, read.2.symm⟩

theorem takeWhile_unquoted (s rest : List Char) :
    (s ++ '"' :: rest).takeWhile (· ≠ '"') = s.takeWhile (· ≠ '"') := by
  induction s with
  | nil => simp
  | cons c s ih =>
      rw [List.cons_append, List.takeWhile_cons, List.takeWhile_cons, ih]

/-- A written name is read back with its spelling. -/
theorem name_written (s : String) (rest : List Char) :
    (⟨some s, (s.toList.flatMap escapeChar ++ '"' :: rest).takeWhile (· ≠ '"')⟩ : Name) =
      .ofString s := by
  rw [takeWhile_unquoted]
  rfl

end ThreatGossip.Json

import Mathlib.Data.List.TakeWhile
import ThreatGossip.Http.Router
/-!
Text in a path. The bytes of a text are read back as that text, and any text written as a segment of a
path, with percent signs for whatever a target gives a meaning to, reaches its resource unchanged.
-/
namespace ThreatGossip

namespace Utf8

variable {p : Partial} {n v : Nat} {rest : List UInt8}

theorem toNat_byte (range : n < 256) : (UInt8.ofNat n).toNat = n := UInt8.toNat_ofNat_of_lt range

theorem decode_begin (range : n < 256) : decode none (UInt8.ofNat n :: rest) =
    (begin n).1 ++ decode (begin n).2 rest := by
  have step : decode none (UInt8.ofNat n :: rest) = (begin (UInt8.ofNat n).toNat).1 ++
      decode (begin (UInt8.ofNat n).toNat).2 rest := rfl
  rwa [toNat_byte range] at step

/-- A byte that ends or goes on with a character that has begun. -/
theorem decode_more {value missing low high t : Nat} (small : t < 0x40)
    (range : low ≤ t + 0x80 ∧ t + 0x80 ≤ high) :
    decode (some ⟨value, missing, low, high⟩) (UInt8.ofNat (t + 0x80) :: rest) =
      if missing = 1 then some (Char.ofNat (value * 64 + t)) :: decode none rest
      else decode (some ⟨value * 64 + t, missing - 1, 0x80, 0xbf⟩) rest := by
  have byte : t + 0x80 < 256 := by omega
  rw [decode]
  dsimp only
  rw [toNat_byte byte, if_pos range, Nat.add_sub_cancel]

/-- The last byte of a character that stands for `v`. -/
theorem decode_last : decode (some ⟨v / 64, 1, 0x80, 0xbf⟩) (UInt8.ofNat (v % 64 + 0x80) :: rest) =
    some (Char.ofNat v) :: decode none rest := by
  rw [decode_more (by omega) (by omega), if_pos rfl, Nat.div_add_mod']

theorem decode_two (low : 0x7f < v) (high : v ≤ 0x7ff) :
    decode none (UInt8.ofNat (v / 64 % 0x20 + 0xc0) :: UInt8.ofNat (v % 64 + 0x80) :: rest) =
      some (Char.ofNat v) :: decode none rest := by
  have lead : begin (v / 64 % 0x20 + 0xc0) = ([], some ⟨v / 64, 1, 0x80, 0xbf⟩) := by
    unfold begin
    rw [if_neg (by omega), if_neg (by omega), if_pos (by omega), Nat.add_sub_cancel,
      Nat.mod_eq_of_lt (by omega)]
  rw [decode_begin (by omega), lead]
  exact decode_last

theorem decode_three (low : 0x7ff < v) (high : v ≤ 0xffff) (whole : v < 0xd800 ∨ 0xdfff < v) :
    decode none (UInt8.ofNat (v / 4096 % 0x10 + 0xe0) :: UInt8.ofNat (v / 64 % 64 + 0x80) ::
      UInt8.ofNat (v % 64 + 0x80) :: rest) = some (Char.ofNat v) :: decode none rest := by
  have lead : begin (v / 4096 % 0x10 + 0xe0) = ([], some ⟨v / 4096, 2,
      if v / 4096 = 0 then 0xa0 else 0x80, if v / 4096 = 13 then 0x9f else 0xbf⟩) := by
    rw [Nat.mod_eq_of_lt (by omega)]
    unfold begin
    rw [if_neg (by omega), if_neg (by omega), if_neg (by omega), if_pos (by omega),
      Nat.add_sub_cancel]
    simp only [Nat.add_eq_right, Nat.reduceEqDiff]
  have second : v / 4096 * 64 + v / 64 % 64 = v / 64 := by omega
  -- The range of the second byte leaves out what is shorter otherwise and the surrogates.
  rw [decode_begin (by omega), lead]
  dsimp only
  rw [List.nil_append, decode_more (by omega) (by split <;> split <;> omega), if_neg (by decide),
    second]
  exact decode_last

theorem decode_four (low : 0xffff < v) (high : v < 0x110000) :
    decode none (UInt8.ofNat (v / 262144 % 0x08 + 0xf0) :: UInt8.ofNat (v / 4096 % 64 + 0x80) ::
      UInt8.ofNat (v / 64 % 64 + 0x80) :: UInt8.ofNat (v % 64 + 0x80) :: rest) =
      some (Char.ofNat v) :: decode none rest := by
  have lead : begin (v / 262144 % 0x08 + 0xf0) = ([], some ⟨v / 262144, 3,
      if v / 262144 = 0 then 0x90 else 0x80, if v / 262144 = 4 then 0x8f else 0xbf⟩) := by
    rw [Nat.mod_eq_of_lt (by omega)]
    unfold begin
    rw [if_neg (by omega), if_neg (by omega), if_neg (by omega), if_neg (by omega),
      if_pos (by omega), Nat.add_sub_cancel]
    simp only [Nat.add_eq_right, Nat.reduceEqDiff]
  have second : v / 262144 * 64 + v / 4096 % 64 = v / 4096 := by omega
  have third : v / 4096 * 64 + v / 64 % 64 = v / 64 := by omega
  rw [decode_begin (by omega), lead]
  dsimp only
  rw [List.nil_append, decode_more (by omega) (by split <;> split <;> omega), if_neg (by decide),
    second, decode_more (by omega) (by omega), if_neg (by decide), third]
  exact decode_last

/-- The bytes of a character are read as the character, whatever follows. -/
theorem decode_char (c : Char) (rest : List UInt8) :
    decode none (String.utf8EncodeChar c ++ rest) = some c :: decode none rest := by
  have valid : c.toNat < 0xd800 ∨ 0xdfff < c.toNat ∧ c.toNat < 0x110000 := c.valid
  have read : decode none (String.utf8EncodeChar c ++ rest) =
      some (Char.ofNat c.toNat) :: decode none rest := by
    unfold String.utf8EncodeChar
    change decode none ((if c.toNat ≤ 0x7f then _ else if c.toNat ≤ 0x7ff then _ else
      if c.toNat ≤ 0xffff then _ else _) ++ rest) = _
    split
    next one =>
      change decode none (UInt8.ofNat c.toNat :: rest) = _
      rw [decode_begin (by omega), begin, if_pos (by omega)]
      rfl
    next more =>
    split
    next two => exact decode_two (v := c.toNat) (by omega) two
    next more =>
    split
    next three => exact decode_three (v := c.toNat) (by omega) three (by omega)
    next four => exact decode_four (v := c.toNat) (by omega) (by omega)
  rwa [Char.ofNat_toNat] at read

theorem decode_chars (cs : List Char) :
    decode none (cs.flatMap String.utf8EncodeChar) = cs.map some := by
  induction cs with
  | nil => rfl
  | cons c cs ih => rw [List.flatMap_cons, decode_char, ih, List.map_cons]

/-- The bytes of a text are the text. -/
theorem strict?_bytes (text : String) :
    strict? (text.toList.flatMap String.utf8EncodeChar) = some text := by
  unfold strict?
  have all := List.mapM_pure (m := Option) (f := id) (l := text.toList)
  rw [List.map_id] at all
  rw [decode_chars, List.mapM_map]
  exact (congrArg (Option.map String.ofList) all).trans (congrArg some String.ofList_toList)

end Utf8

namespace Http

/-- How text is written in a path: the characters that stand for themselves, none of which means
something to a target, and the digits of the bytes of any other. -/
structure Encoding where
  plain : Char → Bool
  digit : Nat → Char
  free : ∀ c, plain c = true → c ∉ ['%', '/', '?', '#']
  read : ∀ n < 16, Json.hexValue? (digit n) = some n

/-- A target gives no meaning to the characters of the segment. -/
def Clear (segment : List Char) : Prop := ∀ c ∈ segment, c ∉ ['/', '?', '#']

instance (segment : List Char) : Decidable (Clear segment) := List.decidableBAll _ segment

theorem toList_loop (bytes : ByteArray) (i : Nat) (read : List UInt8) :
    ByteArray.toList.loop bytes i read = read.reverse ++ bytes.data.toList.drop i := by
  fun_induction ByteArray.toList.loop bytes i read with
  | case1 i read more ih =>
      have inside : i < bytes.data.toList.length := more
      have byte : bytes.get! i = bytes.data.toList[i] := getElem!_pos bytes.data i more
      rw [ih, List.drop_eq_getElem_cons inside, List.reverse_cons, List.append_assoc, byte]
      rfl
  | case2 i read done =>
      have past : bytes.data.toList.length ≤ i := Nat.le_of_not_lt done
      rw [List.drop_of_length_le past, List.append_nil]

/-- The bytes of one character. -/
theorem toList_singleton (c : Char) :
    (String.singleton c).toUTF8.toList = String.utf8EncodeChar c := by
  have bytes : (String.singleton c).toUTF8 = (String.utf8EncodeChar c).toByteArray :=
    String.toByteArray_singleton.trans List.utf8Encode_singleton
  rw [bytes, ByteArray.toList, toList_loop, List.toList_data_toByteArray]
  rfl

namespace Encoding

/-- Letters, digits and the marks that are never reserved stand for themselves; digits are capital. -/
def common : Encoding where
  plain c := c.isAlphanum || c ∈ ['-', '.', '_', '~']
  digit n := (Json.hexDigit n).toUpper
  free c plain reserved := by
    have marks : (['%', '/', '?', '#'].all fun c =>
        !(c.isAlphanum || c ∈ ['-', '.', '_', '~'])) = true := by decide
    have unmarked := List.all_eq_true.mp marks c reserved
    rw [plain] at unmarked
    contradiction
  read := by decide

def byte (e : Encoding) (b : UInt8) : List Char :=
  ['%', e.digit (b.toNat / 16), e.digit (b.toNat % 16)]

def char (e : Encoding) (c : Char) : List Char :=
  if e.plain c then [c] else (String.utf8EncodeChar c).flatMap e.byte

def text (e : Encoding) (s : String) : String := .ofList (s.toList.flatMap e.char)

variable (e : Encoding) {n : Nat}

theorem high_lt (b : UInt8) : b.toNat / 16 < 16 := Nat.div_lt_of_lt_mul b.toNat_lt

theorem low_lt (b : UInt8) : b.toNat % 16 < 16 := Nat.mod_lt _ (by decide)

theorem percentDecode_bytes (bytes : List UInt8) (rest : List Char) :
    percentDecode (bytes.flatMap e.byte ++ rest) = bytes ++ percentDecode rest := by
  induction bytes with
  | nil => rfl
  | cons b bytes ih =>
      have first : percentDecode (e.byte b ++ (bytes.flatMap e.byte ++ rest)) =
          b :: percentDecode (bytes.flatMap e.byte ++ rest) := by
        have value : UInt8.ofNat (b.toNat / 16 * 16 + b.toNat % 16) = b := by
          rw [Nat.div_add_mod', UInt8.ofNat_toNat]
        unfold byte
        simp only [List.cons_append, percentDecode, e.read _ (high_lt b), e.read _ (low_lt b), value]
        rfl
      rw [List.flatMap_cons, List.append_assoc, first, ih]
      rfl

theorem percentDecode_char (c : Char) (rest : List Char) :
    percentDecode (e.char c ++ rest) = String.utf8EncodeChar c ++ percentDecode rest := by
  unfold char
  split
  next plain =>
    have other : c ≠ '%' := fun percent => e.free c plain (percent ▸ List.mem_cons_self)
    have step : percentDecode (c :: rest) =
        (String.singleton c).toUTF8.toList ++ percentDecode rest := by
      rw [percentDecode]
      exact fun a b rest percent => (other percent).elim
    rw [List.singleton_append, step, toList_singleton]
  next => exact percentDecode_bytes e _ rest

theorem percentDecode_text (s : String) :
    percentDecode (e.text s).toList = s.toList.flatMap String.utf8EncodeChar := by
  unfold text
  rw [String.toList_ofList]
  induction s.toList with
  | nil => rfl
  | cons c cs ih => rw [List.flatMap_cons, percentDecode_char, ih, List.flatMap_cons]

/-- A text that is written as a segment is read from it again. -/
theorem segmentText?_text (s : String) : segmentText? (e.text s) = some s := by
  unfold segmentText?
  rw [percentDecode_text, Utf8.strict?_bytes]

theorem digit_clear (small : n < 16) : e.digit n ∉ ['/', '?', '#'] := by
  intro held
  have value := e.read n small
  have none : (['/', '?', '#'].all fun c => (Json.hexValue? c).isNone) = true := by decide
  have unread := List.all_eq_true.mp none _ held
  rw [value] at unread
  contradiction

theorem clear_text (s : String) : Clear (e.text s).toList := by
  unfold text Clear
  rw [String.toList_ofList]
  intro c held
  obtain ⟨source, -, written⟩ := List.mem_flatMap.mp held
  unfold char at written
  split at written
  next plain =>
    obtain rfl := List.mem_singleton.mp written
    exact fun reserved => e.free c plain (List.mem_cons_of_mem _ reserved)
  next =>
    obtain ⟨b, -, digit⟩ := List.mem_flatMap.mp written
    unfold byte at digit
    rcases List.mem_cons.mp digit with rfl | digit
    · decide
    rcases List.mem_cons.mp digit with rfl | digit
    · exact e.digit_clear (high_lt b)
    · obtain rfl := List.mem_singleton.mp digit
      exact e.digit_clear (low_lt b)

/-- Nothing but the empty text is written with no character. -/
theorem text_ne_empty {s : String} (some : s ≠ "") : e.text s ≠ "" := by
  intro blank
  have read := e.segmentText?_text s
  rw [blank] at read
  exact some (Option.some.inj read).symm

end Encoding

section Segments

/-- The path of the segments. -/
def pathOf (segments : List String) : String :=
  .ofList (segments.flatMap fun segment => '/' :: segment.toList)

theorem pathOf_under (a b c : String) : pathOf [a, b, c] = "/" ++ a ++ "/" ++ b ++ "/" ++ c := by
  apply String.toList_injective
  simp [pathOf]

theorem splitOn_clear {cs : List Char} (clear : '/' ∉ cs) : splitOn '/' cs = [cs] := by
  induction cs with
  | nil => rfl
  | cons c cs ih =>
      obtain ⟨other, clear⟩ := not_or.mp (mt List.mem_cons.mpr clear)
      rw [splitOn, if_neg (Ne.symm other), ih clear]

theorem splitOn_append {cs : List Char} (clear : '/' ∉ cs) (rest : List Char) :
    splitOn '/' (cs ++ '/' :: rest) = cs :: splitOn '/' rest := by
  induction cs with
  | nil => rfl
  | cons c cs ih =>
      obtain ⟨other, clear⟩ := not_or.mp (mt List.mem_cons.mpr clear)
      rw [List.cons_append, splitOn, if_neg (Ne.symm other), ih clear]

theorem splitOn_joined {first : String} {others : List String}
    (clear : ∀ segment ∈ first :: others, Clear segment.toList) :
    splitOn '/' (first.toList ++ others.flatMap fun segment => '/' :: segment.toList) =
      (first :: others).map (·.toList) := by
  have free : ∀ segment ∈ first :: others, '/' ∉ segment.toList :=
    fun segment listed slash => clear segment listed '/' slash List.mem_cons_self
  clear clear
  induction others generalizing first with
  | nil =>
      rw [List.flatMap_nil, List.append_nil, splitOn_clear (free first List.mem_cons_self)]
      rfl
  | cons next others ih =>
      rw [List.flatMap_cons, List.cons_append, splitOn_append (free first List.mem_cons_self),
        ih fun segment listed => free segment (List.mem_cons_of_mem _ listed)]
      rfl

/-- A target that is a path and nothing else. -/
theorem ofString_path {cs : List Char} (clear : ∀ c ∈ cs, c ∉ ['?', '#']) :
    Target.ofString (.ofList ('/' :: cs)) = ⟨'/' :: cs, []⟩ := by
  have plain : ∀ c ∈ '/' :: cs, c ∉ ['?', '#'] := List.forall_mem_cons.mpr ⟨by decide, clear⟩
  have noMark : ∀ c ∈ '/' :: cs, (c != '?') = true := fun c held =>
    bne_iff_ne.mpr fun mark => plain c held (mark ▸ List.mem_cons_self)
  have noFragment : ('/' :: cs).takeWhile (· != '#') = '/' :: cs :=
    List.takeWhile_eq_self_iff.mpr fun c held =>
      bne_iff_ne.mpr fun mark => plain c held (mark ▸ List.mem_cons_of_mem _ List.mem_cons_self)
  unfold Target.ofString
  dsimp only
  rw [String.toList_ofList, noFragment]
  -- No scheme begins with a slash.
  have noScheme : (afterAuthority? ('/' :: cs)).getD ('/' :: cs) = '/' :: cs := rfl
  rw [noScheme, List.takeWhile_eq_self_iff.mpr noMark, List.dropWhile_eq_nil_iff.mpr noMark]
  rfl

/-- A path is read as the segments that it is made of. -/
theorem segments_pathOf {first : String} {others : List String}
    (clear : ∀ segment ∈ first :: others, Clear segment.toList) :
    (Target.ofString (pathOf (first :: others))).segments = some (first :: others) := by
  have plain : ∀ c ∈ first.toList ++ others.flatMap fun segment => '/' :: segment.toList,
      c ∉ ['?', '#'] := by
    have each : ∀ segment ∈ first :: others, ∀ c ∈ segment.toList, c ∉ ['?', '#'] :=
      fun segment listed c held mark => clear segment listed c held (List.mem_cons_of_mem _ mark)
    intro c held
    rcases List.mem_append.mp held with held | held
    · exact each first List.mem_cons_self c held
    obtain ⟨segment, listed, held⟩ := List.mem_flatMap.mp held
    rcases List.mem_cons.mp held with rfl | held
    · decide
    · exact each segment (List.mem_cons_of_mem _ listed) c held
  have read : Target.ofString (pathOf (first :: others)) = _ := ofString_path plain
  have names : ((first :: others).map (·.toList)).map String.ofList = first :: others := by
    rw [List.map_map]
    exact List.map_id'' (fun _ => String.ofList_toList) _
  rw [read]
  exact congrArg some ((congrArg _ (splitOn_joined clear)).trans names)

end Segments

end Http

end ThreatGossip

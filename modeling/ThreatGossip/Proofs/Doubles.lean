import Mathlib.Algebra.Group.Int.Defs
import Mathlib.Algebra.GroupWithZero.Nat
import Mathlib.Data.Int.Order.Basic
import Mathlib.Data.Prod.Lex
import ThreatGossip.Peer
/-!
Doubles as numbers, and the trust scores among them. A double stands for a sign, a mantissa and an
exponent, and doubles compare as these do in lexicographic order. Rounding a product never passes
a double that the exact product does not pass, so a failed exchange never raises a score.
-/
namespace ThreatGossip.Double

open Float.Model (Format UnpackedFloat totalExponent)
open Float.Model.UnpackedFloat

section Order

/-- Where a number stands among all: its side of zero, then its exponent, then its mantissa. -/
def rank : UnpackedFloat → ℤ ×ₗ ℤ ×ₗ ℤ
  | .infinity .negative => toLex (-2, toLex (0, 0))
  | .finite .negative m e _ => toLex (-1, toLex (-e, -m))
  | .zero _ | .notANumber => toLex (0, toLex (0, 0))
  | .finite .positive m e _ => toLex (1, toLex (e, m))
  | .infinity .positive => toLex (2, toLex (0, 0))

theorem rank_zero (s : Sign) : rank (.zero s) = toLex (0, toLex (0, 0)) := rfl

theorem rank_infinity (s : Sign) : rank (.infinity s) = toLex (s.apply 2, toLex (0, 0)) := by
  cases s <;> rfl

theorem rank_negative (m : Nat) (e : Int) (pos : 0 < m) :
    rank (.finite .negative m e pos) = toLex (-1, toLex (-e, -(m : ℤ))) := rfl

theorem rank_positive (m : Nat) (e : Int) (pos : 0 < m) :
    rank (.finite .positive m e pos) = toLex (1, toLex (e, (m : ℤ))) := rfl

theorem compare_toLex {α β : Type} [Ord α] [Ord β] (a a' : α) (b b' : β) :
    compare (toLex (a, b)) (toLex (a', b')) = (compare a a').then (compare b b') := rfl

theorem compare_natCast (m m' : ℕ) : compare (m : ℤ) (m' : ℤ) = compare m m' := by
  simp only [compare, compareOfLessAndEq, Int.ofNat_lt, Int.natCast_inj]

theorem compare_neg (i j : ℤ) : compare (-i) (-j) = compare j i := by
  simp only [compare, compareOfLessAndEq, Int.neg_lt_neg_iff, Int.neg_inj, eq_comm]

/-- Numbers compare as their ranks do. -/
theorem compare_eq_some {a b : UnpackedFloat} (ha : a.isNaN = false) (hb : b.isNaN = false) :
    a.compare b = some (compare (rank a) (rank b)) := by
  rcases a with (_ | _) | _ | _ | ⟨_ | _, m, e, -⟩ <;>
    rcases b with (_ | _) | _ | _ | ⟨_ | _, m', e', -⟩ <;>
    first
    | exact absurd ha Bool.noConfusion
    | exact absurd hb Bool.noConfusion
    | exact rfl
    | skip
  · change some ((compare e e').then (compare m m')).swap = _
    rw [rank_negative, rank_negative, compare_toLex, compare_toLex, compare_neg e, compare_neg m,
      compare_natCast, Ordering.swap_then, ← Std.OrientedOrd.eq_swap, ← Std.OrientedOrd.eq_swap]
    rfl
  · change some ((compare e e').then (compare m m')) = _
    rw [rank_positive, rank_positive, compare_toLex, compare_toLex, compare_natCast]
    rfl

theorem isNaN_of_isFinite {u : UnpackedFloat} (h : u.isFinite = true) : u.isNaN = false := by
  cases u <;> first | rfl | cases h

/-- Every double but the one that is no number equals itself. -/
theorem beq_self {u : UnpackedFloat} (h : u.isNaN = false) : u.beq u = true := by
  change (u.compare u == some .eq) = true
  rw [compare_eq_some h h, compare_eq_iff_eq.mpr rfl]
  rfl

theorem compare_eq_none {a b : UnpackedFloat} (h : a.isNaN = true ∨ b.isNaN = true) :
    a.compare b = none := by
  rcases a with _ | _ | _ | _ <;> rcases b with _ | _ | _ | _ <;>
    first
    | exact rfl
    | exact absurd h (by rintro (h | h) <;> cases h)

theorem rank_positive_le {m m' : Nat} {e e' : Int} {pos : 0 < m} {pos' : 0 < m'} :
    rank (.finite .positive m e pos) ≤ rank (.finite .positive m' e' pos') ↔
      e < e' ∨ e = e' ∧ m ≤ m' := by
  rw [rank_positive, rank_positive]
  simp [Prod.Lex.toLex_le_toLex]

/-- The rank of a double. -/
def place (x : Float) : ℤ ×ₗ ℤ ×ₗ ℤ := rank x.toModel.unpack

variable {x y z : Float}

theorem lt_iff : x < y ↔ x.isNaN = false ∧ y.isNaN = false ∧ place x < place y := by
  change decide ((x.toModel.unpack.compare y.toModel.unpack == some .lt) = true) = true ↔
    x.toModel.unpack.isNaN = false ∧ y.toModel.unpack.isNaN = false ∧ _
  rw [decide_eq_true_iff]
  by_cases hx : x.toModel.unpack.isNaN = true
  · rw [compare_eq_none (.inl hx), hx]
    simp
  by_cases hy : y.toModel.unpack.isNaN = true
  · rw [compare_eq_none (.inr hy), hy]
    simp
  rw [Bool.not_eq_true] at hx hy
  rw [compare_eq_some hx hy, hx, hy]
  simp [compare_lt_iff_lt, place]

theorem le_iff : x ≤ y ↔ x.isNaN = false ∧ y.isNaN = false ∧ place x ≤ place y := by
  change decide ((x.toModel.unpack.compare y.toModel.unpack).any (·.isLE) = true) = true ↔
    x.toModel.unpack.isNaN = false ∧ y.toModel.unpack.isNaN = false ∧ _
  rw [decide_eq_true_iff]
  by_cases hx : x.toModel.unpack.isNaN = true
  · rw [compare_eq_none (.inl hx), hx]
    simp
  by_cases hy : y.toModel.unpack.isNaN = true
  · rw [compare_eq_none (.inr hy), hy]
    simp
  rw [Bool.not_eq_true] at hx hy
  rw [compare_eq_some hx hy, hx, hy]
  simp [Ordering.isLE_iff_ne_gt, compare_le_iff_le, place]

protected theorem not_lt (hx : x.isNaN = false) (hy : y.isNaN = false) : ¬x < y ↔ y ≤ x := by
  rw [lt_iff, le_iff, hx, hy]
  simp

protected theorem lt_of_le_of_lt (first : x ≤ y) (second : y < z) : x < z := by
  obtain ⟨hx, -, le⟩ := le_iff.mp first
  obtain ⟨-, hz, lt⟩ := lt_iff.mp second
  exact lt_iff.mpr ⟨hx, hz, le.trans_lt lt⟩

protected theorem lt_of_lt_of_le (first : x < y) (second : y ≤ z) : x < z := by
  obtain ⟨hx, -, lt⟩ := lt_iff.mp first
  obtain ⟨-, hz, le⟩ := le_iff.mp second
  exact lt_iff.mpr ⟨hx, hz, lt.trans_le le⟩

protected theorem le_trans (first : x ≤ y) (second : y ≤ z) : x ≤ z := by
  obtain ⟨hx, -, le⟩ := le_iff.mp first
  obtain ⟨-, hz, le'⟩ := le_iff.mp second
  exact le_iff.mpr ⟨hx, hz, le.trans le'⟩

protected theorem le_of_lt (h : x < y) : x ≤ y := by
  obtain ⟨hx, hy, lt⟩ := lt_iff.mp h
  exact le_iff.mpr ⟨hx, hy, lt.le⟩

end Order

section Rounding

/-- A mantissa and an exponent as doubles have them: no more than 53 bits, and all of them unless
the exponent is the least. -/
structure Proper (m : Nat) (e : Int) : Prop where
  short : m < 2 ^ 53
  least : -1074 ≤ e
  full : 2 ^ 52 ≤ m ∨ e = -1074

/-- What is left of a mantissa after some shifts to the right, and whether anything was lost. -/
structure Shifted (em : ExtendedMantissa) (m n : Nat) : Prop where
  mantissa : em.mantissa = m / 2 ^ n
  inexact : (em.roundBit || em.stickyBit) = true → em.mantissa * 2 ^ n < m

theorem shifted (m n : Nat) :
    Shifted (ExtendedMantissa.ofMantissaAndAccuracy m .exact >>> n) m n := by
  change Shifted (n.repeat ExtendedMantissa.shiftRightOne _) m n
  induction n with
  | zero => exact ⟨(Nat.div_one m).symm, nofun⟩
  | succ n ih =>
      obtain ⟨mantissa, inexact⟩ := ih
      rw [Nat.repeat]
      generalize n.repeat ExtendedMantissa.shiftRightOne _ = em at mantissa inexact ⊢
      have whole : em.mantissa * 2 ^ n ≤ m := mantissa ▸ Nat.div_mul_le_self _ _
      have halved : em.mantissa / 2 * 2 ^ (n + 1) = em.mantissa / 2 * 2 * 2 ^ n := by
        rw [Nat.pow_succ, Nat.mul_comm (2 ^ n), Nat.mul_assoc]
      constructor
      · rw [Nat.pow_succ, ← Nat.div_div_eq_div_mul, ← mantissa]
        rfl
      · intro lost
        change em.mantissa / 2 * 2 ^ (n + 1) < m
        rw [halved]
        rcases Bool.or_eq_true _ _ ▸ lost with odd | before
        · have odd : em.mantissa % 2 ≠ 0 := bne_iff_ne.mp odd
          have dropped : em.mantissa / 2 * 2 < em.mantissa := by omega
          exact lt_of_lt_of_le (Nat.mul_lt_mul_of_pos_right dropped (Nat.two_pow_pos n)) whole
        · exact Nat.lt_of_le_of_lt (Nat.mul_le_mul_right _ (Nat.div_mul_le_self _ _))
            (inexact before)

variable {em : ExtendedMantissa} {m n b : Nat}

/-- Rounding does not pass a bound. -/
theorem Shifted.rounded_le (h : Shifted em m n) (bound : m ≤ b * 2 ^ n) :
    em.roundedMantissa ≤ b := by
  obtain ⟨mantissa, inexact⟩ := h
  have below (lost : (em.roundBit || em.stickyBit) = true) : em.mantissa < b :=
    Nat.lt_of_mul_lt_mul_right (Nat.lt_of_lt_of_le (inexact lost) bound)
  have whole : em.mantissa ≤ b := by
    rw [mantissa]
    exact Nat.div_le_of_le_mul (Nat.mul_comm b _ ▸ bound)
  obtain ⟨q, _ | _, _ | _⟩ := em
  · exact whole
  · exact whole
  · have below : q < b := below rfl
    change q + q % 2 ≤ b
    omega
  · exact below rfl

theorem le_roundedMantissa (em : ExtendedMantissa) : em.mantissa ≤ em.roundedMantissa := by
  obtain ⟨mantissa, _ | _, _ | _⟩ := em
  · exact Nat.le_refl _
  · exact Nat.le_refl _
  · exact Nat.le_add_right _ _
  · exact Nat.le_add_right _ _

/-- The exponent that a number of some bits gets. -/
def target (m : Nat) (e : Int) : Int := max (m.log2 + 1 + e - 53) (-1074)

theorem shift_eq (m : Nat) (e : Int) : shiftToTargetExponent .binary64 m e .exact =
    (ExtendedMantissa.ofMantissaAndAccuracy m .exact >>> (target m e - e).toNat,
      e + (target m e - e).toNat) := rfl

theorem log2_eq_of_full {m : Nat} (low : 2 ^ 52 ≤ m) (high : m < 2 ^ 53) : m.log2 = 52 := by
  have pos : m ≠ 0 := by omega
  have := (Nat.le_log2 pos).mpr low
  have := (Nat.log2_lt pos).mpr high
  omega

theorem Proper.target_le {m : Nat} {e : Int} (h : Proper m e) : target m e ≤ e := by
  have bits : m.log2 ≤ 52 := by
    by_cases zero : m = 0
    · subst zero
      decide
    · have := (Nat.log2_lt zero).mpr h.short
      omega
  have := h.least
  unfold target
  omega

theorem Proper.target_eq {m : Nat} {e : Int} (h : Proper m e) : target m e = e := by
  refine Int.le_antisymm h.target_le ?_
  unfold target
  rcases h.full with full | least
  · have := log2_eq_of_full full h.short
    omega
  · omega

/-- The number of a mantissa and an exponent, which may be zero. -/
def number (s : Sign) (m : Nat) (e : Int) : UnpackedFloat :=
  if h : m = 0 then .zero s else .finite s m e (Nat.pos_of_ne_zero h)

section Numbers

variable {s s' : Sign} {m m' : Nat} {e e' : Int}

theorem number_of_pos (pos : 0 < m) : number s m e = .finite s m e pos :=
  dif_neg (Nat.ne_of_gt pos)

theorem isFinite_number : (number s m e).isFinite = true := by
  rcases Nat.eq_zero_or_pos m with rfl | pos
  · rfl
  · rw [number_of_pos pos]
    rfl

theorem eq_of_number_eq {pos : 0 < m'} (h : number s m e = .finite s' m' e' pos) :
    m = m' ∧ e = e' := by
  rcases Nat.eq_zero_or_pos m with rfl | pos'
  · cases h
  · rw [number_of_pos pos'] at h
    cases h
    exact ⟨rfl, rfl⟩

end Numbers

/-- Zero, or a positive number that is not above the given one. -/
inductive Below (m : Nat) (e : Int) : UnpackedFloat → Prop
  | zero : Below m e (.zero .positive)
  | finite {m' : Nat} {e' : Int} (pos : 0 < m') : Proper m' e' → (e' < e ∨ e' = e ∧ m' ≤ m) →
      Below m e (.finite .positive m' e' pos)

theorem Below.isFinite {m : Nat} {e : Int} {u : UnpackedFloat} (h : Below m e u) :
    u.isFinite = true := by
  cases h <;> rfl

theorem Below.rank_le {m : Nat} {e : Int} {u : UnpackedFloat} (h : Below m e u) (pos : 0 < m) :
    rank u ≤ rank (.finite .positive m e pos) := by
  cases h with
  | zero =>
      rw [rank_zero, rank_positive]
      simp [Prod.Lex.toLex_le_toLex]
  | finite pos' proper within => exact rank_positive_le.mpr within

theorem Below.number {m m' : Nat} {e e' : Int} (proper : Proper m' e')
    (within : e' < e ∨ e' = e ∧ m' ≤ m) : Below m e (number .positive m' e') := by
  rcases Nat.eq_zero_or_pos m' with rfl | pos
  · exact .zero
  · rw [number_of_pos pos]
    exact .finite pos proper within

/-- What the second shift makes of a rounded mantissa, which may have gained a bit. -/
def carried (q : Nat) (t : Int) : UnpackedFloat :=
  let shift := shiftToTargetExponent .binary64 q t .exact
  number .positive shift.1.mantissa shift.2

theorem roundWithAccuracy_eq (m : Nat) (e : Int) :
    roundWithAccuracy .binary64 .positive m e .exact =
      carried (ExtendedMantissa.ofMantissaAndAccuracy m .exact >>>
        (target m e - e).toNat).roundedMantissa (e + (target m e - e).toNat) := rfl

theorem carried_below {m q : Nat} {e t : Int} (proper : Proper m e) (short : q ≤ 2 ^ 53)
    (least : -1074 ≤ t) (full : 2 ^ 52 ≤ q ∨ t = -1074) (within : t < e ∨ t = e ∧ q ≤ m) :
    Below m e (carried q t) := by
  unfold carried
  rcases Nat.lt_or_eq_of_le short with short | rfl
  · have own : Proper q t := ⟨short, least, full⟩
    have shift : shiftToTargetExponent .binary64 q t .exact =
        (ExtendedMantissa.ofMantissaAndAccuracy q .exact, t) := by
      rw [shift_eq, own.target_eq, Int.sub_self]
      exact congrArg (Prod.mk _) (Int.add_zero t)
    rw [shift]
    exact .number own within
  · have shift : shiftToTargetExponent .binary64 (2 ^ 53) t .exact =
        (ExtendedMantissa.ofMantissaAndAccuracy (2 ^ 53) .exact >>> 1, t + 1) := by
      have next : target (2 ^ 53) t = t + 1 := by
        unfold target
        rw [Nat.log2_two_pow]
        omega
      have one : t + 1 - t = 1 := by omega
      rw [shift_eq, next, one]
      rfl
    have strict : t < e := within.resolve_right fun same => by
      have := proper.short
      omega
    rw [shift]
    change Below m e (number .positive (2 ^ 52) (t + 1))
    refine .number ⟨by decide, by omega, .inl (Nat.le_refl _)⟩ ?_
    rcases Int.lt_or_eq_of_le (Int.add_one_le_of_lt strict) with less | same
    · exact .inl less
    · refine .inr ⟨same, proper.full.resolve_right fun last => ?_⟩
      omega

/-- A product that an exact bound is not below, is not above it when it has been rounded. -/
theorem round_below {m p j : Nat} {e : Int} (proper : Proper m e) (large : 2 ^ 52 ≤ p)
    (bound : p ≤ m * 2 ^ j) :
    Below m e (roundWithAccuracy .binary64 .positive p (e - j) .exact) := by
  have positive : p ≠ 0 := by omega
  have low : 52 ≤ p.log2 := (Nat.le_log2 positive).mpr large
  -- The first shift goes no further than the exponent of the bound.
  have bits : p.log2 ≤ m.log2 + j := by
    have room : p < 2 ^ (m.log2 + 1 + j) := by
      rw [Nat.pow_add]
      exact Nat.lt_of_le_of_lt bound
        (Nat.mul_lt_mul_of_pos_right Nat.lt_log2_self (Nat.two_pow_pos j))
    have := (Nat.log2_lt positive).mpr room
    omega
  have within : target p (e - j) ≤ e := by
    have := proper.target_eq
    unfold target at this ⊢
    omega
  obtain ⟨k, shift⟩ : ∃ k : Nat, (target p (e - j) - (e - j)).toNat = k := ⟨_, rfl⟩
  have reached : e - j + k = target p (e - j) := by
    unfold target at shift ⊢
    omega
  have held := shifted p k
  have short : (ExtendedMantissa.ofMantissaAndAccuracy p .exact >>> k).roundedMantissa ≤ 2 ^ 53 := by
    refine held.rounded_le (Nat.le_of_lt ((Nat.log2_lt positive).mp ?_ |>.trans_eq (Nat.pow_add ..)))
    unfold target at reached
    omega
  have full : 2 ^ 52 ≤ (ExtendedMantissa.ofMantissaAndAccuracy p .exact >>> k).roundedMantissa ∨
      target p (e - j) = -1074 := by
    by_cases last : target p (e - j) = -1074
    · exact .inr last
    · refine .inl (Nat.le_trans ?_ (le_roundedMantissa _))
      rw [held.mantissa, Nat.le_div_iff_mul_le (Nat.two_pow_pos k), ← Nat.pow_add]
      refine (Nat.le_log2 positive).mp ?_
      unfold target at reached last
      omega
  rw [roundWithAccuracy_eq, shift, reached]
  refine carried_below proper short (Int.le_max_right _ _) full ?_
  rcases Int.lt_or_eq_of_le within with less | same
  · exact .inl less
  · refine .inr ⟨same, held.rounded_le ?_⟩
    have : k = j := by omega
    exact this ▸ bound

end Rounding

section Packing

variable {s : Sign} {ev : BitVec 11} {mv : BitVec 52}

theorem toNat_one_append (mv : BitVec 52) : (1#1 ++ mv).toNat = 2 ^ 52 + mv.toNat := by
  rw [BitVec.toNat_append]
  exact (Nat.two_pow_add_eq_or_of_lt mv.isLt 1).symm

/-- What the fields of a finite double stand for. -/
theorem unpack_eq {b : BitVec Format.binary64.numBits} (finite : unpackExponent b ≠ -1#11) :
    UnpackedFloat.unpack .binary64 b =
      if unpackExponent b = 0#11 then
        number (.ofBitVec (unpackSign b)) (unpackMantissa b).toNat (-1074)
      else number (.ofBitVec (unpackSign b)) (2 ^ 52 + (unpackMantissa b).toNat)
        ((unpackExponent b).toNat - 1075) := by
  unfold UnpackedFloat.unpack
  rw [if_neg finite]
  by_cases least : unpackExponent b = 0#11
  · rw [if_pos least, if_pos least, least]
    by_cases zero : unpackMantissa b = 0#52
    · rw [dif_pos zero, zero]
      rfl
    · rw [dif_neg zero]
      exact (number_of_pos (BitVec.toNat_pos_of_ne_zero zero)).symm
  · rw [if_neg least, if_neg least, ← toNat_one_append]
    exact (number_of_pos _).symm

/-- What the fields of a double stand for that is not finite. -/
theorem unpack_full {b : BitVec Format.binary64.numBits} (full : unpackExponent b = -1#11) :
    UnpackedFloat.unpack .binary64 b =
      if unpackMantissa b = 0#52 then .infinity (.ofBitVec (unpackSign b)) else .notANumber :=
  if_pos full

/-- A finite double is a proper number. -/
theorem proper_of_unpack {b : BitVec Format.binary64.numBits} {m : Nat} {e : Int} {pos : 0 < m}
    (h : UnpackedFloat.unpack .binary64 b = .finite s m e pos) : Proper m e ∧ e ≤ 971 := by
  have mantissa : (unpackMantissa b).toNat < 2 ^ 52 := (unpackMantissa b).isLt
  have exponent : (unpackExponent b).toNat < 2 ^ 11 := (unpackExponent b).isLt
  by_cases finite : unpackExponent b = -1#11
  · rw [unpack_full finite] at h
    by_cases zero : unpackMantissa b = 0#52
    · rw [if_pos zero] at h
      cases h
    · rw [if_neg zero] at h
      cases h
  rw [unpack_eq finite] at h
  by_cases least : unpackExponent b = 0#11
  · rw [if_pos least] at h
    obtain ⟨rfl, rfl⟩ := eq_of_number_eq h
    exact ⟨⟨by omega, by omega, .inr rfl⟩, by omega⟩
  · rw [if_neg least] at h
    obtain ⟨rfl, rfl⟩ := eq_of_number_eq h
    have first : (unpackExponent b).toNat ≠ 0 := fun same => least (BitVec.eq_of_toNat_eq same)
    have last : (unpackExponent b).toNat ≠ 2 ^ 11 - 1 := fun same =>
      finite (BitVec.eq_of_toNat_eq same)
    exact ⟨⟨by omega, by omega, .inl (by omega)⟩, by omega⟩

theorem sign_packed : Sign.ofBitVec (unpackSign (packComponents .binary64 s ev mv)) = s := by
  unfold unpackSign packComponents BitVec.extractLsb
  rw [BitVec.extractLsb'_append_eq_of_le (Nat.le_add_right 52 11),
    BitVec.extractLsb'_append_eq_of_le (Nat.le_refl 11)]
  cases s <;> rfl

/-- The fields that a biased exponent and a mantissa are packed into. -/
theorem unpack_packed (s : Sign) (m k : Nat) (room : k < 2 ^ 11 - 1) :
    UnpackedFloat.unpack .binary64
        (packComponents .binary64 s (BitVec.ofNat 11 k) (BitVec.ofNat 52 m)) =
      if k = 0 then number s (m % 2 ^ 52) (-1074)
      else number s (2 ^ 52 + m % 2 ^ 52) (k - 1075) := by
  have exponent : (BitVec.ofNat 11 k).toNat = k := by
    rw [BitVec.toNat_ofNat]
    omega
  have mantissa : (BitVec.ofNat 52 m).toNat = m % 2 ^ 52 := BitVec.toNat_ofNat ..
  have least : BitVec.ofNat 11 k = 0#11 ↔ k = 0 := by
    rw [← BitVec.toNat_inj, exponent]
    rfl
  rw [unpack_eq, unpackExponent_packComponents, unpackMantissa_packComponents, sign_packed,
    mantissa, exponent]
  · exact if_congr least rfl rfl
  · rw [unpackExponent_packComponents, Ne, ← BitVec.toNat_inj, exponent]
    change k ≠ 2 ^ 11 - 1
    omega

/-- How a number is stored: too large a one as infinite, one with all its bits without the first,
and a smaller one as it is. -/
theorem pack_finite {m : Nat} {e : Int} (pos : 0 < m) :
    UnpackedFloat.pack .binary64 (.finite s m e pos) =
      if 2 ^ 11 ≤ (e + 1075).toNat + 1 then packedInfinity .binary64 s
      else if m.log2 + 1 = 53 then
        packComponents .binary64 s (BitVec.ofNat 11 (e + 1075).toNat) (BitVec.ofNat 52 m)
      else packComponents .binary64 s (BitVec.ofNat 11 0) (BitVec.ofNat 52 m) := by
  have bias : e + 1023 + 52 = e + 1075 := Int.add_assoc e 1023 52
  rw [← bias]
  rfl

/-- A proper number is a double. -/
theorem unpack_pack {m : Nat} {e : Int} (pos : 0 < m) (proper : Proper m e) (fits : e ≤ 971) :
    UnpackedFloat.unpack .binary64 (UnpackedFloat.pack .binary64 (.finite s m e pos)) =
      .finite s m e pos := by
  obtain ⟨short, least, full⟩ := proper
  rw [pack_finite, if_neg (by omega), ← number_of_pos pos]
  split
  next bits =>
    have full : 2 ^ 52 ≤ m := (Nat.le_log2 (by omega)).mp (Nat.le_of_eq (Nat.succ.inj bits).symm)
    rw [unpack_packed s m _ (by omega), if_neg (by omega)]
    congr 1 <;> omega
  next bits =>
    have part : ¬2 ^ 52 ≤ m := fun full => bits (by rw [log2_eq_of_full full short])
    rw [unpack_packed s m 0 (by omega), if_pos rfl]
    congr 1 <;> omega

theorem isNaN_packed (s : Sign) (m k : Nat) (room : k < 2 ^ 11 - 1) :
    (UnpackedFloat.unpack .binary64
      (packComponents .binary64 s (BitVec.ofNat 11 k) (BitVec.ofNat 52 m))).isNaN = false := by
  rw [unpack_packed s m k room]
  split <;> exact isNaN_of_isFinite isFinite_number

/-- A number stays one when it is stored, though it may become infinite. -/
theorem isNaN_unpack_pack {u : UnpackedFloat} (h : u.isNaN = false) :
    (UnpackedFloat.unpack .binary64 (UnpackedFloat.pack .binary64 u)).isNaN = false := by
  rcases u with s | _ | s | ⟨s, m, e, pos⟩
  · cases s <;> rfl
  · exact h
  · cases s <;> rfl
  · rw [pack_finite]
    split
    next => cases s <;> rfl
    next room =>
      split
      next => exact isNaN_packed s m _ (Nat.lt_sub_of_add_lt (Nat.lt_of_not_le room))
      next => exact isNaN_packed s m 0 (by decide)

/-- There is one way to store what is no number. -/
theorem toBits_of_isNaN {x : Float} (h : x.isNaN = true) :
    x.toBits = .ofBitVec (packedNaN .binary64) := by
  change (UnpackedFloat.unpack .binary64 x.toBits.toBitVec).isNaN = true at h
  by_cases finite : @unpackExponent .binary64 x.toBits.toBitVec = -1#11
  · rw [unpack_full finite] at h
    split at h
    next => cases h
    next part => exact UInt64.toBitVec_inj.mp (x.toModel.valid.eq_packedNaN finite part)
  · rw [unpack_eq finite] at h
    split at h <;> rw [isNaN_of_isFinite isFinite_number] at h <;> cases h

theorem Below.unpack_pack {m : Nat} {e : Int} {u : UnpackedFloat} (h : Below m e u)
    (fits : e ≤ 971) :
    UnpackedFloat.unpack .binary64 (UnpackedFloat.pack .binary64 u) = u := by
  cases h with
  | zero => rfl
  | finite pos proper within => exact Double.unpack_pack pos proper (by omega)

end Packing

section Operations

theorem unpack_mul (x y : Float) : (x * y).toModel.unpack =
    UnpackedFloat.unpack .binary64 (UnpackedFloat.pack .binary64
      (UnpackedFloat.mul .binary64 x.toModel.unpack y.toModel.unpack)) := rfl

theorem unpack_add (x y : Float) : (x + y).toModel.unpack =
    UnpackedFloat.unpack .binary64 (UnpackedFloat.pack .binary64
      (UnpackedFloat.add .binary64 x.toModel.unpack y.toModel.unpack)) := rfl

theorem isFinite_roundWithAccuracy (s : Sign) (m : Nat) (e : Int) (a : Accuracy) :
    (roundWithAccuracy .binary64 s m e a).isFinite = true := by
  exact isFinite_number

theorem isFinite_add {u v : UnpackedFloat} (hu : u.isFinite = true) (hv : v.isFinite = true) :
    (UnpackedFloat.add .binary64 u v).isFinite = true := by
  rcases u with _ | _ | s | ⟨s, m, e, -⟩ <;> rcases v with _ | _ | s' | ⟨s', m', e', -⟩ <;>
    first
    | exact absurd hu Bool.noConfusion
    | exact absurd hv Bool.noConfusion
    | exact rfl
    | skip
  · unfold UnpackedFloat.add
    dsimp only
    split <;> rfl
  · unfold UnpackedFloat.add UnpackedFloat.normalize
    dsimp only
    split
    · exact isFinite_roundWithAccuracy ..
    · rfl
    · exact isFinite_roundWithAccuracy ..

/-- A sum of finite doubles is a number. -/
theorem isNaN_add {x y : Float} (hx : x.isFinite = true) (hy : y.isFinite = true) :
    (x + y).isNaN = false :=
  isNaN_unpack_pack (isNaN_of_isFinite (isFinite_add hx hy))

end Operations

end ThreatGossip.Double

namespace ThreatGossip.Trust

open Float.Model (UnpackedFloat)
open Double

/-- The numbers from zero to one. -/
def Score (t : Float) : Prop := 0.0 ≤ t ∧ t ≤ 1.0

variable {t x : Float}

theorem Score.isNaN_eq_false (h : Score t) : t.isNaN = false := (le_iff.mp h.1).2.1

theorem Score.le_self (h : Score t) : t ≤ t :=
  le_iff.mpr ⟨h.isNaN_eq_false, h.isNaN_eq_false, le_rfl⟩

theorem score_clamp (h : x.isNaN = false) : Score (clamp x) := by
  unfold clamp
  split
  next => exact ⟨by decide, by decide⟩
  next above =>
    split
    next => exact ⟨by decide, by decide⟩
    next below => exact ⟨(Double.not_lt h rfl).mp above, (Double.not_lt rfl h).mp below⟩

theorem clamp_le (low : 0.0 ≤ t) (h : x ≤ t) : clamp x ≤ t := by
  unfold clamp
  split
  next => exact low
  next =>
    split
    next above => exact Double.le_trans (Double.le_of_lt above) h
    next => exact h

/-- The score of a new peer is one, whatever was given for it. -/
theorem score_ofGiven (given : Option Float) : Score (ofGiven given) := by
  refine score_clamp ?_
  cases kept : given.filter fun x => 0.0 < x && x.isFinite with
  | none => rfl
  | some x =>
      rw [Option.filter_eq_some_iff, Bool.and_eq_true, decide_eq_true_iff] at kept
      exact (lt_iff.mp kept.2.1).2.1

theorem place_zero : place 0.0 = toLex (0, toLex (0, 0)) := rfl

theorem place_one : place 1.0 = toLex (1, toLex (-52, 2 ^ 52)) := rfl

/-- How a score is stored. -/
theorem Score.unpack (h : Score t) : (∃ s, t.toModel.unpack = .zero s) ∨
    ∃ m e pos, t.toModel.unpack = .finite .positive m e pos ∧ Proper m e ∧ e ≤ -52 := by
  obtain ⟨low, high⟩ := h
  obtain ⟨-, number, low⟩ := le_iff.mp low
  obtain ⟨-, -, high⟩ := le_iff.mp high
  change t.toModel.unpack.isNaN = false at number
  change _ ≤ rank t.toModel.unpack at low
  change rank t.toModel.unpack ≤ _ at high
  rw [place_zero] at low
  rw [place_one] at high
  cases stored : t.toModel.unpack with
  | notANumber => rw [stored] at number; cases number
  | zero s => exact .inl ⟨s, rfl⟩
  | infinity s =>
      rw [stored, rank_infinity] at low high
      cases s <;> simp [Prod.Lex.toLex_le_toLex, UnpackedFloat.Sign.apply] at low high
  | finite s m e pos =>
      rw [stored] at low high
      cases s with
      | negative =>
          rw [rank_negative] at low
          simp [Prod.Lex.toLex_le_toLex] at low
      | positive =>
          rw [rank_positive] at high
          simp only [Prod.Lex.toLex_le_toLex] at high
          exact .inr ⟨m, e, pos, rfl, (proper_of_unpack stored).1, by omega⟩

theorem unpack_one_sub_weight : (1.0 - weight).toModel.unpack =
    .finite .positive 8556839292003942 (-53) (by decide) := rfl

theorem weight_mul_zero : weight * 0.0 = 0.0 := rfl

/-- Ninety-five hundredths of a score, as doubles have them. -/
theorem Score.unpack_scaled (h : Score t) :
    (∃ s, t.toModel.unpack = .zero s ∧ ((1.0 - weight) * t).toModel.unpack = .zero s) ∨
    ∃ m e pos, t.toModel.unpack = .finite .positive m e pos ∧ e ≤ -52 ∧
      Below m e ((1.0 - weight) * t).toModel.unpack := by
  rw [unpack_mul, unpack_one_sub_weight]
  rcases h.unpack with ⟨s, stored⟩ | ⟨m, e, pos, stored, proper, small⟩
  · rw [stored]
    exact .inl ⟨s, rfl, by cases s <;> rfl⟩
  · rw [stored]
    refine .inr ⟨m, e, pos, rfl, small, ?_⟩
    have rounded := round_below (p := 8556839292003942 * m) (j := 53) proper (by omega) (by omega)
    rw [show e - (53 : ℕ) = -53 + e by omega] at rounded
    change Below m e (UnpackedFloat.unpack .binary64 (UnpackedFloat.pack .binary64
      (UnpackedFloat.roundWithAccuracy .binary64 .positive (8556839292003942 * m) (-53 + e) .exact)))
    rw [rounded.unpack_pack (by omega)]
    exact rounded

theorem isFinite_of_scaled (h : Score t) : ((1.0 - weight) * t).isFinite = true := by
  change ((1.0 - weight) * t).toModel.unpack.isFinite = true
  rcases h.unpack_scaled with ⟨s, -, stored⟩ | ⟨m, e, pos, -, -, below⟩
  · rw [stored]
    rfl
  · exact below.isFinite

/-- Ninety-five hundredths of a score, rounded, are not more than it. -/
theorem Score.scaled_le (h : Score t) : (1.0 - weight) * t + weight * 0.0 ≤ t := by
  rw [weight_mul_zero, le_iff, place, place, unpack_add]
  refine ⟨isNaN_add (isFinite_of_scaled h) rfl, (le_iff.mp h.1).2.1, ?_⟩
  change rank (UnpackedFloat.unpack _ (UnpackedFloat.pack _
    (UnpackedFloat.add _ _ (.zero .positive)))) ≤ _
  rcases h.unpack_scaled with ⟨s, stored, scaled⟩ | ⟨m, e, pos, stored, small, below⟩
  · rw [stored, scaled]
    cases s <;> exact le_refl _
  · rw [stored]
    generalize ((1.0 - weight) * t).toModel.unpack = u at below
    have kept : UnpackedFloat.add .binary64 u (.zero .positive) = u := by cases below <;> rfl
    rw [kept, below.unpack_pack (by omega)]
    exact below.rank_le pos

theorem score_after (h : Score t) (succeeded : Bool) : Score (after t succeeded) :=
  score_clamp (isNaN_add (isFinite_of_scaled h) (by cases succeeded <;> rfl))

theorem after_false_le (h : Score t) : after t false ≤ t := clamp_le h.1 h.scaled_le

end ThreatGossip.Trust

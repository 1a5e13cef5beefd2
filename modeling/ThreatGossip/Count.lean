/-!
Counts that cross the wire are 64-bit words: clock slots, counter slots and timestamps. A count
that would pass the top stays there, and `toNat_satAdd` says so in plain numbers. Figures that may
be negative have the 64-bit signed range.
-/
namespace ThreatGossip

/-- Wall-clock time in milliseconds. -/
abbrev Millis := UInt64

/-- The greatest count. -/
def maxCount : UInt64 := 18446744073709551615

/-- The least signed figure. -/
def minSigned : Int := -9223372036854775808

/-- The greatest signed figure. -/
def maxSigned : Int := 9223372036854775807

/-- Addition that stops at the greatest count. -/
def satAdd (a b : UInt64) : UInt64 := if b ≤ maxCount - a then a + b else maxCount

theorem toNat_satAdd (a b : UInt64) :
    (satAdd a b).toNat = min (a.toNat + b.toNat) maxCount.toNat := by
  have ha := a.toNat_lt
  have hm : maxCount.toNat = 18446744073709551615 := rfl
  have hs : (maxCount - a).toNat = maxCount.toNat - a.toNat :=
    UInt64.toNat_sub_of_le _ _ (UInt64.le_iff_toNat_le.mpr (by omega))
  unfold satAdd
  split
  next h =>
    rw [UInt64.le_iff_toNat_le, hs] at h
    rw [UInt64.toNat_add, Nat.mod_eq_of_lt] <;> omega
  next h =>
    rw [UInt64.le_iff_toNat_le, hs] at h
    omega

/-- How far `later` lies beyond `earlier`; nothing when it does not. -/
def elapsed (earlier later : Millis) : Nat := later.toNat - earlier.toNat

end ThreatGossip

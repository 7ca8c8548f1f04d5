import Testbed.Data
import Testbed.Proofs.Number.Rounding

/-!
# Integers as singles

The integers that documents hold are stored as singles without overflow, since none of them comes
near the largest single (`exceedsSingle_ofInt`).
-/

namespace Testbed.Number.Binary

/-- A number of double precision with a small exponent is not larger than every single. -/
theorem exceedsSingle_of_le {m : Nat} {e : Int} (negative : Bool) (hm : m ≤ 2 ^ 53) (he : e ≤ 50) :
    (finite negative m e).exceedsSingle = false := by
  have hpow : (2 : Nat) ^ e.toNat ≤ 2 ^ 50 := Nat.pow_le_pow_right (by decide) (by omega)
  have hden : 1 ≤ denominator e := Nat.one_le_two_pow
  have hnum : numerator m e ≤ 2 ^ 53 * 2 ^ 50 := Nat.mul_le_mul hm hpow
  have hlargest : 2 ^ 53 * 2 ^ 50 ≤
      (2 ^ Width.single.precision - 1) * 2 ^ Width.single.highest.toNat * 1 := by decide +kernel
  rw [exceedsSingle, decide_eq_false_iff_not, not_lt]
  exact hnum.trans (hlargest.trans (Nat.mul_le_mul_left _ hden))

/-- The exponent of a whole number is at most that of its bits. -/
theorem floorLog_le (num : Nat) : floorLog num 1 ≤ num.log2 := by
  have hlog : Nat.log2 1 = 0 := by decide
  rw [floorLog, hlog]
  split <;> omega

/-- An integer that documents hold is stored as a float no larger than the largest single. -/
theorem exceedsSingle_ofInt {n : Int} (h : Data.isInteger n = true) :
    (ofInt n).exceedsSingle = false := by
  have hn : n.natAbs < 2 ^ 64 := by
    simp only [Data.isInteger, Bool.and_eq_true, decide_eq_true_eq] at h
    omega
  by_cases hzero : n.natAbs = 0
  · rw [ofInt, round, if_pos hzero]
    exact exceedsSingle_of_le _ (Nat.zero_le _) (by decide)
  -- the mantissa has the precision of a double, so its exponent is that of 64 bits at most
  have hlog : (n.natAbs.log2 : Int) < 64 := by exact_mod_cast (Nat.log2_lt hzero).mpr hn
  have he : roundingExponent .double n.natAbs 1 ≤ 12 := by
    have hfloor := floorLog_le n.natAbs
    rw [roundingExponent]
    simp only [Width.double]
    omega
  have hm := mantissaAt_le (w := .double) hzero one_ne_zero
  rw [ofInt, round_of_ne_zero _ _ hzero]
  simp only
  split_ifs
  · exact exceedsSingle_of_le _ (Nat.zero_le _) (by decide)
  · rfl
  · exact exceedsSingle_of_le _ (by decide) (by omega)
  · rfl
  · exact exceedsSingle_of_le _ hm (by omega)

end Testbed.Number.Binary

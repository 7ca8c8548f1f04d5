import Mathlib.Algebra.Order.Field.Power
import Mathlib.Tactic.FieldSimp
import Mathlib.Tactic.Linarith
import Mathlib.Tactic.Positivity
import Mathlib.Tactic.Ring
import Testbed.Number.Binary

/-!
# Rounding

What rounding a quotient to a width gives, stated over the rationals. Every result is in the normal
form of the width (`round_fits`). A number in normal form is the result exactly where it should be:
for the quotients between the midpoints to its two neighbours (`round_eq`), the midpoints
themselves counting where its mantissa is even. Below the least normalized mantissa the neighbour
is only half as far away.
-/

namespace Testbed.Number

/-- Whether a mantissa and an exponent are the normal form of a finite number: the mantissa has its
    full length, or the exponent is the lowest. -/
def Width.Holds (w : Width) (m : Nat) (e : Int) : Prop :=
  m < 2 ^ w.precision ∧ w.lowest ≤ e ∧ e ≤ w.highest ∧
    (2 ^ (w.precision - 1) ≤ m ∨ e = w.lowest)

instance (w : Width) (m : Nat) (e : Int) : Decidable (w.Holds m e) :=
  inferInstanceAs (Decidable (_ ∧ _ ∧ _ ∧ _))

namespace Binary

/-- Whether a number is in the normal form of a width. -/
def Fits (w : Width) : Binary → Prop
  | .finite _ m e => w.Holds m e
  | .infinite _ => True
  | .nan => True

instance (w : Width) (x : Binary) : Decidable (x.Fits w) := by
  cases x <;> unfold Fits <;> infer_instance

/-! ## §1 Powers with whole exponents -/

/-- A power is the quotient of its positive by its negative part. -/
theorem zpow_mul_pow_toNat {b : Nat} (hb : b ≠ 0) (e : Int) :
    (b : ℚ) ^ e * (b : ℚ) ^ (-e).toNat = (b : ℚ) ^ e.toNat := by
  have hb' : (b : ℚ) ≠ 0 := by exact_mod_cast hb
  obtain ⟨n, rfl | rfl⟩ := e.eq_nat_or_neg
  · simp
  · simp [hb']

theorem pow_toNat_div {b : Nat} (hb : b ≠ 0) (e : Int) :
    (b : ℚ) ^ e.toNat / (b : ℚ) ^ (-e).toNat = (b : ℚ) ^ e := by
  have hb' : (b : ℚ) ^ (-e).toNat ≠ 0 := by positivity
  rw [div_eq_iff hb', zpow_mul_pow_toNat hb]

/-- A quotient in units of `2 ^ e`. -/
theorem scaled_quotient (num den : Nat) (e : Int) :
    ((num * 2 ^ (-e).toNat : Nat) : ℚ) / ((den * 2 ^ e.toNat : Nat) : ℚ) =
      (num : ℚ) / den / 2 ^ e := by
  have hpow := pow_toNat_div (b := 2) two_ne_zero e
  push_cast at hpow ⊢
  rw [← hpow, mul_div_mul_comm, div_eq_mul_inv _ (_ / _), inv_div]

/-! ## §2 The place of a quotient -/

/-- The floor of a logarithm says between which powers of two a quotient lies. -/
theorem floorLog_spec {num den : Nat} (hnum : num ≠ 0) (hden : den ≠ 0) :
    (2 : ℚ) ^ floorLog num den ≤ (num : ℚ) / den ∧
      (num : ℚ) / den < 2 ^ (floorLog num den + 1) := by
  have hd : (0 : ℚ) < den := by positivity
  set k : Int := (num.log2 : Int) - (den.log2 : Int) with hk
  -- the quotient of the powers below numerator and denominator is off by less than two
  have hnlow : (2 : ℚ) ^ (num.log2 : Int) ≤ num := by
    exact_mod_cast Nat.log2_self_le hnum
  have hnhigh : (num : ℚ) < 2 ^ ((num.log2 : Int) + 1) := by
    exact_mod_cast Nat.lt_log2_self
  have hdlow : (2 : ℚ) ^ (den.log2 : Int) ≤ den := by
    exact_mod_cast Nat.log2_self_le hden
  have hdhigh : (den : ℚ) < 2 ^ ((den.log2 : Int) + 1) := by
    exact_mod_cast Nat.lt_log2_self
  have hbelow : (2 : ℚ) ^ (k - 1) ≤ num / den := by
    rw [le_div_iff₀ hd]
    calc (2 : ℚ) ^ (k - 1) * den
        ≤ 2 ^ (k - 1) * 2 ^ ((den.log2 : Int) + 1) := by gcongr
      _ = 2 ^ (num.log2 : Int) := by
          rw [← zpow_add₀ two_ne_zero, hk]
          ring_nf
      _ ≤ num := hnlow
  have habove : (num : ℚ) / den < 2 ^ (k + 1) := by
    rw [div_lt_iff₀ hd]
    calc (num : ℚ) < 2 ^ ((num.log2 : Int) + 1) := hnhigh
      _ = 2 ^ (k + 1) * 2 ^ (den.log2 : Int) := by
          rw [← zpow_add₀ two_ne_zero, hk]
          ring_nf
      _ ≤ 2 ^ (k + 1) * den := by gcongr
  -- the test decides on which side of the power the quotient is
  have htest : den * 2 ^ k.toNat ≤ num * 2 ^ (-k).toNat ↔ (2 : ℚ) ^ k ≤ num / den := by
    have hpow := pow_toNat_div (b := 2) two_ne_zero k
    push_cast at hpow
    have hpos : (0 : ℚ) < 2 ^ (-k).toNat := by positivity
    rw [← hpow, div_le_div_iff₀ hpos hd, ← Nat.cast_le (α := ℚ)]
    push_cast
    rw [mul_comm (den : ℚ)]
  unfold floorLog
  simp only
  rw [← hk]
  split
  · next h => exact ⟨htest.mp h, habove⟩
  · next h =>
    refine ⟨hbelow, ?_⟩
    rw [sub_add_cancel]
    apply lt_of_not_ge
    intro hle
    exact h (htest.mpr hle)

/-- The powers of two around a quotient determine the floor of its logarithm. -/
theorem floorLog_eq {num den : Nat} (hnum : num ≠ 0) (hden : den ≠ 0) {k : Int}
    (hlow : (2 : ℚ) ^ k ≤ (num : ℚ) / den) (hhigh : (num : ℚ) / den < 2 ^ (k + 1)) :
    floorLog num den = k := by
  obtain ⟨hl, hh⟩ := floorLog_spec hnum hden
  have h1 : floorLog num den < k + 1 :=
    (zpow_lt_zpow_iff_right₀ one_lt_two).mp (lt_of_le_of_lt hl hhigh)
  have h2 : k < floorLog num den + 1 :=
    (zpow_lt_zpow_iff_right₀ one_lt_two).mp (lt_of_le_of_lt hlow hh)
  omega

/-! ## §3 The nearest whole number -/

/-- Rounding does not go beyond a whole number above. -/
theorem roundEven_le {num den b : Nat} (hden : 0 < den) (h : num ≤ b * den) :
    roundEven num den ≤ b := by
  have hdiv : num / den ≤ b := Nat.div_le_of_le_mul (by rwa [Nat.mul_comm])
  have hsplit := Nat.div_add_mod num den
  unfold roundEven
  simp only
  rcases Nat.lt_or_eq_of_le hdiv with hlt | heq
  · split_ifs <;> omega
  · -- there is no remainder at the bound
    have hmod : num % den = 0 := by
      rw [heq, Nat.mul_comm] at hsplit
      omega
    rw [hmod]
    simp [hden, hdiv]

/-- Rounding does not go below a whole number below. -/
theorem le_roundEven {num den b : Nat} (hden : 0 < den) (h : b * den ≤ num) :
    b ≤ roundEven num den := by
  have hdiv : b ≤ num / den := (Nat.le_div_iff_mul_le hden).mpr h
  unfold roundEven
  simp only
  split_ifs <;> omega

/-- The whole number at most a half away is the nearest; at a half, where it is even. -/
theorem roundEven_eq_of_le {num den n : Nat} (hden : 0 < den) (hlow : 2 * (n * den) ≤ 2 * num + den)
    (hhigh : 2 * num ≤ 2 * (n * den) + den)
    (htie : n % 2 = 1 → 2 * (n * den) ≠ 2 * num + den ∧ 2 * num ≠ 2 * (n * den) + den) :
    roundEven num den = n := by
  have hsplit := Nat.div_add_mod num den
  have hrem := Nat.mod_lt num hden
  rw [Nat.mul_comm den] at hsplit
  have hge : num / den ≤ n := by
    by_contra hlt
    have hmul : (n + 1) * den ≤ num / den * den := Nat.mul_le_mul_right den (by omega)
    rw [Nat.add_mul] at hmul
    omega
  have hle : n ≤ num / den + 1 := by
    by_contra hlt
    have hmul : (num / den + 2) * den ≤ n * den := Nat.mul_le_mul_right den (by omega)
    rw [Nat.add_mul] at hmul
    omega
  unfold roundEven
  simp only
  -- so it is the quotient or the next number, as the remainder says
  rcases (by omega : n = num / den ∨ n = num / den + 1) with hn | hn
  · have hmul : n * den = num / den * den := by rw [hn]
    split_ifs <;> omega
  · have hmul : n * den = num / den * den + den := by rw [hn, Nat.add_mul, Nat.one_mul]
    split_ifs <;> omega

/-- A fraction is rounded to the number that is nearest, and of two to the even one. -/
theorem roundEven_eq {num den n : Nat} (hden : 0 < den)
    (hlow : (n : ℚ) - 1 / 2 ≤ (num : ℚ) / den) (hhigh : (num : ℚ) / den ≤ n + 1 / 2)
    (htie : n % 2 = 1 → (n : ℚ) - 1 / 2 ≠ (num : ℚ) / den ∧ (num : ℚ) / den ≠ n + 1 / 2) :
    roundEven num den = n := by
  have hd : (0 : ℚ) < den := by exact_mod_cast hden
  apply roundEven_eq_of_le hden
  · rw [le_div_iff₀ hd] at hlow
    have hq : 2 * ((n : ℚ) * den) ≤ 2 * num + den := by linarith
    exact_mod_cast hq
  · rw [div_le_iff₀ hd] at hhigh
    have hq : 2 * (num : ℚ) ≤ 2 * (n * den) + den := by linarith
    exact_mod_cast hq
  · intro hodd
    obtain ⟨hl, hh⟩ := htie hodd
    rw [ne_eq, eq_div_iff hd.ne'] at hl
    rw [ne_eq, div_eq_iff hd.ne'] at hh
    constructor
    · intro heq
      have hq : 2 * ((n : ℚ) * den) = 2 * num + den := by exact_mod_cast heq
      apply hl
      linarith
    · intro heq
      have hq : 2 * (num : ℚ) = 2 * (n * den) + den := by exact_mod_cast heq
      apply hh
      linarith

/-! ## §4 Rounding to a width -/

/-- The exponent that a quotient is rounded at: the mantissa gets its full length, unless the
    exponent would be too low. -/
def roundingExponent (w : Width) (num den : Nat) : Int :=
  max (floorLog num den - (w.precision - 1)) w.lowest

/-- The mantissa that a quotient is rounded to at an exponent. -/
def mantissaAt (e : Int) (num den : Nat) : Nat :=
  roundEven (num * 2 ^ (-e).toNat) (den * 2 ^ e.toNat)

theorem round_of_ne_zero (w : Width) (negative : Bool) {num : Nat} (hnum : num ≠ 0) (den : Nat) :
    round w negative num den =
      let e := roundingExponent w num den
      let m := mantissaAt e num den
      if m = 0 then .finite negative 0 w.lowest
      else if m = 2 ^ w.precision then
        if w.highest ≤ e then .infinite negative
        else .finite negative (2 ^ (w.precision - 1)) (e + 1)
      else if w.highest < e then .infinite negative
      else .finite negative m e := by
  rw [round, if_neg hnum]
  rfl

section

variable {w : Width} {num den : Nat}

/-- The mantissa of a rounded fraction has the bits of its width, or is the next power of two. -/
theorem mantissaAt_le (hnum : num ≠ 0) (hden : den ≠ 0) :
    mantissaAt (roundingExponent w num den) num den ≤ 2 ^ w.precision := by
  set e := roundingExponent w num den with he
  have hpos : 0 < den * 2 ^ e.toNat := by positivity
  apply roundEven_le hpos
  -- the exponent is high enough for the quotient to fit the precision
  have hlog : floorLog num den + 1 ≤ w.precision + e := by
    have hmax : floorLog num den - (w.precision - 1) ≤ e := le_max_left _ _
    omega
  have hq : (num : ℚ) / den / 2 ^ e ≤ 2 ^ w.precision := by
    rw [div_le_iff₀ (by positivity), ← zpow_natCast, ← zpow_add₀ two_ne_zero]
    exact (floorLog_spec hnum hden).2.le.trans (zpow_le_zpow_right₀ one_le_two hlog)
  rw [← scaled_quotient, div_le_iff₀ (by exact_mod_cast hpos)] at hq
  exact_mod_cast hq

/-- Above the lowest exponent a mantissa has its full length. -/
theorem le_mantissaAt (hw : 0 < w.precision) (hnum : num ≠ 0) (hden : den ≠ 0)
    (h : roundingExponent w num den ≠ w.lowest) :
    2 ^ (w.precision - 1) ≤ mantissaAt (roundingExponent w num den) num den := by
  set e := roundingExponent w num den with he
  have hpos : 0 < den * 2 ^ e.toNat := by positivity
  apply le_roundEven hpos
  have hlog : ((w.precision - 1 : Nat) : Int) + e = floorLog num den := by
    have hmax : e = floorLog num den - (w.precision - 1) := by
      rw [he, roundingExponent] at h ⊢
      omega
    omega
  have hq : (2 : ℚ) ^ (w.precision - 1) ≤ (num : ℚ) / den / 2 ^ e := by
    rw [le_div_iff₀ (by positivity), ← zpow_natCast, ← zpow_add₀ two_ne_zero, hlog]
    exact (floorLog_spec hnum hden).1
  rw [← scaled_quotient, le_div_iff₀ (by exact_mod_cast hpos)] at hq
  exact_mod_cast hq

/-- Rounding gives a number in normal form. -/
theorem round_fits (hw : 0 < w.precision) (hrange : w.lowest ≤ w.highest) (negative : Bool)
    (num : Nat) (hden : den ≠ 0) : (round w negative num den).Fits w := by
  have hzero : w.Holds 0 w.lowest := ⟨by positivity, le_rfl, hrange, .inr rfl⟩
  by_cases hnum : num = 0
  · rw [round, if_pos hnum]
    exact hzero
  rw [round_of_ne_zero w negative hnum]
  simp only
  have hle := mantissaAt_le (w := w) hnum hden
  have hlow : w.lowest ≤ roundingExponent w num den := le_max_right _ _
  have hfull : 2 ^ (w.precision - 1) ≤ mantissaAt (roundingExponent w num den) num den ∨
      roundingExponent w num den = w.lowest :=
    (em _).symm.imp_left (le_mantissaAt hw hnum hden)
  have hhalf : 2 ^ (w.precision - 1) < 2 ^ w.precision :=
    Nat.pow_lt_pow_right (by decide) (by omega)
  -- zero; a carry, which may be one too many; and a mantissa as it is, if its exponent is in range
  split_ifs with h0 hcarry hbig hbig
  · exact hzero
  · trivial
  · exact ⟨hhalf, by omega, by omega, .inl le_rfl⟩
  · trivial
  · exact ⟨lt_of_le_of_ne hle hcarry, hlow, by omega, hfull⟩

end

/-! ## §5 Quotients that round to a given number -/

/-- The midpoint from `m * 2 ^ e` to its lower neighbour, in quarters of a unit. Below the least
    normalized mantissa the neighbour is only half as far away. -/
def lowerQuarters (w : Width) (m : Nat) (e : Int) : ℚ :=
  if m = 2 ^ (w.precision - 1) ∧ w.lowest < e then 4 * m - 1 else 4 * m - 2

/-- Whether a quotient lies between the midpoints from `m * 2 ^ e` to its neighbours. The midpoints
    count where `m` is even. -/
structure RoundsTo (w : Width) (m : Nat) (e : Int) (q : ℚ) : Prop where
  lower : lowerQuarters w m e * 2 ^ (e - 2) ≤ q
  upper : q ≤ (4 * m + 2) * 2 ^ (e - 2)
  strict : m % 2 = 1 → (4 * m - 2 : ℚ) * 2 ^ (e - 2) ≠ q ∧ q ≠ (4 * m + 2) * 2 ^ (e - 2)

namespace RoundsTo

variable {w : Width} {m : Nat} {e : Int} {q : ℚ}

theorem quarter (e : Int) : (2 : ℚ) ^ e = 4 * 2 ^ (e - 2) := by
  rw [show e = e - 2 + 2 by ring, zpow_add₀ two_ne_zero]
  norm_num
  ring

/-- A fraction is at most half a unit below what it is rounded to. -/
theorem le_scaled (h : RoundsTo w m e q) : (m : ℚ) - 1 / 2 ≤ q / 2 ^ e := by
  have hp : (0 : ℚ) < 2 ^ (e - 2) := by positivity
  have hlow := h.lower
  rw [quarter, le_div_iff₀ (by positivity)]
  unfold lowerQuarters at hlow
  split_ifs at hlow <;> nlinarith

theorem scaled_le (h : RoundsTo w m e q) : q / 2 ^ e ≤ m + 1 / 2 := by
  have hp : (0 : ℚ) < 2 ^ (e - 2) := by positivity
  have hhigh := h.upper
  rw [quarter, div_le_iff₀ (by positivity)]
  nlinarith

/-- A fraction that is rounded to an odd mantissa is no tie. -/
theorem scaled_strict (h : RoundsTo w m e q) (hodd : m % 2 = 1) :
    (m : ℚ) - 1 / 2 ≠ q / 2 ^ e ∧ q / 2 ^ e ≠ m + 1 / 2 := by
  have hp : (0 : ℚ) < 2 ^ (e - 2) := by positivity
  obtain ⟨hlow, hhigh⟩ := h.strict hodd
  rw [quarter, ne_eq, ne_eq, eq_div_iff (by positivity), div_eq_iff (by positivity)]
  constructor
  · intro heq
    apply hlow
    rw [← heq]
    ring
  · intro heq
    apply hhigh
    rw [heq]
    ring

theorem pos (h : RoundsTo w m e q) (hm : 0 < m) : 0 < q := by
  have hp : (0 : ℚ) < 2 ^ e := by positivity
  have hm' : (1 : ℚ) ≤ m := by exact_mod_cast hm
  have hlow := h.le_scaled
  have hq : 0 < q / 2 ^ e := by linarith
  exact (div_pos_iff_of_pos_right hp).mp hq

/-- A quotient below the number's own power of two belongs to the next lower one, and is at most a
    quarter away. -/
theorem scaled_of_lt (h : RoundsTo w m e q) (hw : w.Holds m e) (he : w.lowest < e)
    (hlt : q < 2 ^ ((w.precision - 1 : Nat) + e)) :
    m = 2 ^ (w.precision - 1) ∧ (2 * m : ℚ) - 1 / 2 ≤ q / 2 ^ (e - 1) := by
  obtain ⟨-, -, -, hfull⟩ := hw
  have hge : 2 ^ (w.precision - 1) ≤ m := hfull.resolve_right (by omega)
  have hx : q / 2 ^ e < 2 ^ (w.precision - 1) := by
    rw [div_lt_iff₀ (by positivity), ← zpow_natCast, ← zpow_add₀ two_ne_zero]
    exact hlt
  have hm : m = 2 ^ (w.precision - 1) := by
    -- the lower midpoint of any greater mantissa is above the power
    by_contra hne
    have hsucc : 2 ^ (w.precision - 1) + 1 ≤ m := by omega
    have hsucc' : (2 : ℚ) ^ (w.precision - 1) + 1 ≤ m := by exact_mod_cast hsucc
    have hlow := h.le_scaled
    linarith
  refine ⟨hm, ?_⟩
  have hlow := h.lower
  rw [lowerQuarters, if_pos ⟨hm, he⟩] at hlow
  have hp : (0 : ℚ) < 2 ^ (e - 2) := by positivity
  have hstep : (2 : ℚ) ^ (e - 1) = 2 * 2 ^ (e - 2) := by
    rw [show e - 1 = 1 + (e - 2) by ring, zpow_add₀ two_ne_zero, zpow_one]
  rw [hstep, le_div_iff₀ (by positivity)]
  linarith

/-- What is rounded to a mantissa within the bits of the width is below the power of two beyond
    them. -/
theorem lt_pow (h : RoundsTo w m e q) (hm : m < 2 ^ w.precision) : q < 2 ^ (w.precision + e) := by
  have hsucc : (m : ℚ) + 1 ≤ 2 ^ w.precision := by exact_mod_cast hm
  have hscaled := h.scaled_le
  rw [div_le_iff₀ (by positivity)] at hscaled
  rw [zpow_add₀ two_ne_zero, zpow_natCast]
  apply lt_of_le_of_lt hscaled
  gcongr
  linarith

end RoundsTo

section

variable {w : Width} {m : Nat} {e : Int} {num den : Nat}

/-- Rounded at the exponent of the number, the quotient gets its mantissa. -/
theorem mantissaAt_eq (hden : den ≠ 0) (h : RoundsTo w m e ((num : ℚ) / den)) :
    mantissaAt e num den = m := by
  apply roundEven_eq (by positivity)
  · rw [scaled_quotient]
    exact h.le_scaled
  · rw [scaled_quotient]
    exact h.scaled_le
  · rw [scaled_quotient]
    exact h.scaled_strict

/-- A quotient that is not below the number's own power of two is rounded at its exponent. -/
theorem roundingExponent_eq (hnum : num ≠ 0) (hden : den ≠ 0) (hw : w.Holds m e)
    (h : RoundsTo w m e ((num : ℚ) / den))
    (hge : w.lowest < e → (2 : ℚ) ^ ((w.precision - 1 : Nat) + e) ≤ (num : ℚ) / den) :
    roundingExponent w num den = e := by
  obtain ⟨hmlt, hlow, -, -⟩ := hw
  obtain ⟨hl, hh⟩ := floorLog_spec hnum hden
  have hlog : floorLog num den < w.precision + e :=
    (zpow_lt_zpow_iff_right₀ one_lt_two).mp (lt_of_le_of_lt hl (h.lt_pow hmlt))
  rw [roundingExponent]
  rcases lt_or_eq_of_le hlow with hlt | heq
  · have hlog' : ((w.precision - 1 : Nat) : Int) + e < floorLog num den + 1 :=
      (zpow_lt_zpow_iff_right₀ one_lt_two).mp (lt_of_le_of_lt (hge hlt) hh)
    omega
  · omega

/-- A quotient below the number's own power of two is rounded at the exponent below, and carries. -/
theorem carries_of_lt (hp : 0 < w.precision) (hnum : num ≠ 0) (hden : den ≠ 0) (hw : w.Holds m e)
    (hm : 0 < m) (h : RoundsTo w m e ((num : ℚ) / den)) (he : w.lowest < e)
    (hlt : (num : ℚ) / den < 2 ^ ((w.precision - 1 : Nat) + e)) :
    roundingExponent w num den = e - 1 ∧ mantissaAt (e - 1) num den = 2 ^ w.precision := by
  obtain ⟨hmeq, hscaled⟩ := h.scaled_of_lt hw he hlt
  have hone : (1 : ℚ) ≤ m := by exact_mod_cast hm
  have hmeq' : (m : ℚ) = 2 ^ (w.precision - 1) := by exact_mod_cast hmeq
  constructor
  · -- less than the power of two that it rounds up to, but not less than the one before
    have hbelow : (2 : ℚ) ^ ((w.precision - 1 : Nat) + e - 1) ≤ (num : ℚ) / den := by
      rw [le_div_iff₀ (by positivity)] at hscaled
      refine le_trans ?_ hscaled
      rw [show ((w.precision - 1 : Nat) : Int) + e - 1 = (w.precision - 1 : Nat) + (e - 1) by ring,
        zpow_add₀ two_ne_zero, zpow_natCast, ← hmeq']
      gcongr
      linarith
    have hfloor : floorLog num den = (w.precision - 1 : Nat) + e - 1 := by
      apply floorLog_eq hnum hden hbelow
      rwa [sub_add_cancel]
    rw [roundingExponent, hfloor]
    omega
  · -- at the exponent below the mantissa rounds up to the next power
    have htwo : 2 * m = 2 ^ w.precision := by
      rw [hmeq, ← pow_succ']
      congr 1
      omega
    have hpow : (2 : ℚ) ^ ((w.precision - 1 : Nat) + e) = 2 * m * 2 ^ (e - 1) := by
      rw [show ((w.precision - 1 : Nat) : Int) + e = (w.precision - 1 : Nat) + (1 + (e - 1)) by
        ring, zpow_add₀ two_ne_zero, zpow_add₀ two_ne_zero, zpow_natCast, zpow_one, hmeq']
      ring
    rw [mantissaAt, ← htwo]
    apply roundEven_eq (by positivity)
    · rw [scaled_quotient]
      push_cast
      exact hscaled
    · -- the quotient does not even reach the power of two
      rw [scaled_quotient, div_le_iff₀ (by positivity)]
      push_cast
      apply hlt.le.trans
      rw [hpow]
      gcongr
      linarith
    · intro hodd
      omega

/-- A number in normal form is the rounding of every quotient between the midpoints around it. -/
theorem round_eq (hp : 0 < w.precision) (hw : w.Holds m e) (hm : 0 < m) (hden : den ≠ 0)
    (h : RoundsTo w m e ((num : ℚ) / den)) (negative : Bool) :
    round w negative num den = .finite negative m e := by
  have hq := h.pos hm
  have hnum : num ≠ 0 := by
    rintro rfl
    simp at hq
  rw [round_of_ne_zero w negative hnum]
  simp only
  by_cases hcase : w.lowest < e ∧ (num : ℚ) / den < 2 ^ ((w.precision - 1 : Nat) + e)
  · obtain ⟨hlowest, hlt⟩ := hcase
    obtain ⟨hexp, hmant⟩ := carries_of_lt hp hnum hden hw hm h hlowest hlt
    obtain ⟨hmeq, -⟩ := h.scaled_of_lt hw hlowest hlt
    have hhigh := hw.2.2.1
    have hne : ¬ (2 ^ w.precision = 0) := by positivity
    rw [hexp, hmant, if_neg hne, if_pos rfl, if_neg (by omega), hmeq, sub_add_cancel]
  · have hexp : roundingExponent w num den = e := by
      apply roundingExponent_eq hnum hden hw h
      intro hlowest
      exact le_of_not_gt fun hlt => hcase ⟨hlowest, hlt⟩
    obtain ⟨hmlt, -, hhigh, -⟩ := hw
    rw [hexp, mantissaAt_eq hden h, if_neg (by omega), if_neg (by omega), if_neg (by omega)]

end

end Binary

end Testbed.Number

import Mathlib.Data.Nat.Cast.Order.Field
import Testbed.Proofs.Number.Digits
import Testbed.Proofs.Number.Rounding

/-!
# The shortest digits of a double

The search for digits tries longer and longer decimals until one reads back as the double. It finds
one, since with seventeen digits the decimals are closer to each other than the doubles are; and
what it finds does round to the double (`shortest_roundsTo`).
-/

namespace Testbed.Number

/-- The number that digits and a point write. -/
def Digits.value (x : Digits) : ℚ :=
  digitsValue x.digits * (10 : ℚ) ^ (x.point - x.digits.length)

namespace Binary

/-! ## §1 Decimals that read back -/

/-- Comparing two products of powers over one denominator. -/
theorem compare_powers (d : Nat) (k : Int) (s : Nat) (e : Int) :
    ((d * 10 ^ k.toNat * 2 ^ (-e).toNat : Nat) : ℚ) / (10 ^ (-k).toNat * 2 ^ (-e).toNat) =
        d * 10 ^ k ∧
      ((s * 2 ^ e.toNat * 10 ^ (-k).toNat : Nat) : ℚ) / (10 ^ (-k).toNat * 2 ^ (-e).toNat) =
        s * 2 ^ e := by
  have hten := pow_toNat_div (b := 10) (by norm_num) k
  have htwo := pow_toNat_div (b := 2) two_ne_zero e
  push_cast at hten htwo ⊢
  rw [← hten, ← htwo]
  constructor <;> field_simp

/-- Decimals and binaries are compared as rational numbers. -/
theorem comparePowers_eq_lt_iff {d : Nat} {k : Int} {s : Nat} {e : Int} :
    comparePowers d k s e = .lt ↔ (d : ℚ) * 10 ^ k < s * 2 ^ e := by
  obtain ⟨hl, hr⟩ := compare_powers d k s e
  have hpos : (0 : ℚ) < 10 ^ (-k).toNat * 2 ^ (-e).toNat := by positivity
  rw [← hl, ← hr, div_lt_div_iff_of_pos_right hpos, Nat.cast_lt]
  exact Nat.compare_eq_lt

theorem comparePowers_eq_gt_iff {d : Nat} {k : Int} {s : Nat} {e : Int} :
    comparePowers d k s e = .gt ↔ (s : ℚ) * 2 ^ e < d * 10 ^ k := by
  obtain ⟨hl, hr⟩ := compare_powers d k s e
  have hpos : (0 : ℚ) < 10 ^ (-k).toNat * 2 ^ (-e).toNat := by positivity
  rw [← hl, ← hr, div_lt_div_iff_of_pos_right hpos, Nat.cast_lt]
  exact Nat.compare_eq_gt

/-- The test for reading back is the condition for rounding to the double. -/
theorem readsBack_iff {m : Nat} (hm : 0 < m) (e : Int) (d : Nat) (k : Int) :
    readsBack m e d k = true ↔ RoundsTo .double m e ((d : ℚ) * 10 ^ k) := by
  have hquarters : ((if m = 2 ^ 52 ∧ Width.double.lowest < e then 4 * m - 1 else 4 * m - 2 : Nat) :
      ℚ) = lowerQuarters .double m e := by
    show _ = if m = 2 ^ 52 ∧ Width.double.lowest < e then (4 * m - 1 : ℚ) else 4 * m - 2
    split
    · rw [Nat.cast_sub (by omega)]
      push_cast
      ring
    · rw [Nat.cast_sub (by omega)]
      push_cast
      ring
  have hupper : ((4 * m + 2 : Nat) : ℚ) = 4 * m + 2 := by
    push_cast
    ring
  unfold readsBack
  simp only
  split
  · next heven =>
    simp only [Bool.and_eq_true, bne_iff_ne, ne_eq, comparePowers_eq_lt_iff,
      comparePowers_eq_gt_iff, not_lt, hquarters, hupper]
    -- nothing is asked of the midpoints of an even mantissa
    constructor
    · rintro ⟨hl, hh⟩
      exact ⟨hl, hh, fun hodd => by omega⟩
    · intro h
      exact ⟨h.lower, h.upper⟩
  · next hodd =>
    simp only [Bool.and_eq_true, beq_iff_eq, comparePowers_eq_lt_iff, comparePowers_eq_gt_iff,
      hquarters, hupper]
    -- an odd mantissa is not the least normalized one
    have hlower : lowerQuarters .double m e = 4 * m - 2 := by
      apply if_neg
      rintro ⟨rfl, -⟩
      exact hodd (by decide)
    constructor
    · rintro ⟨hl, hh⟩
      refine ⟨hl.le, hh.le, ?_⟩
      intro _
      rw [hlower] at hl
      exact ⟨hl.ne, hh.ne⟩
    · intro h
      obtain ⟨hl, hh⟩ := h.strict (by omega)
      refine ⟨lt_of_le_of_ne h.lower ?_, lt_of_le_of_ne h.upper hh⟩
      rw [hlower]
      exact hl

/-! ## §2 The place of the point -/

/-- A number is below the power of ten of its count of digits. -/
theorem lt_pow_digitCount (n : Nat) : n < 10 ^ digitCount n := by
  unfold digitCount
  split
  · next h => simp [h]
  · exact (Nat.length_toDigits_le_iff (by norm_num) Nat.length_toDigits_pos).mp le_rfl

/-- A number is at least the power of ten of its first digit. -/
theorem pow_le_of_digitCount {n : Nat} (hn : n ≠ 0) : 10 ^ (digitCount n - 1) ≤ n := by
  unfold digitCount
  rw [if_neg hn]
  by_contra hlt
  rcases Nat.eq_zero_or_pos ((Nat.toDigits 10 n).length - 1) with hzero | hpos
  · rw [hzero] at hlt
    omega
  · have hle := (Nat.length_toDigits_le_iff (by norm_num) hpos).mpr (Nat.lt_of_not_le hlt)
    have hlen : 0 < (Nat.toDigits 10 n).length := Nat.length_toDigits_pos
    omega

theorem digitCount_pos {n : Nat} (hn : n ≠ 0) : 0 < digitCount n := by
  rw [digitCount, if_neg hn]
  exact Nat.length_toDigits_pos

/-- A quotient has a digit at its point. -/
theorem pow_pointOf_le {num den : Nat} (hnum : num ≠ 0) (hden : den ≠ 0) :
    (10 : ℚ) ^ (pointOf num den - 1) ≤ (num : ℚ) / den := by
  have hd : (0 : ℚ) < den := by positivity
  unfold pointOf
  split
  · next hle =>
    -- from one on, the digits of the whole part count
    have hquot : num / den ≠ 0 := by
      have hpos : 0 < num / den := Nat.div_pos hle (Nat.pos_of_ne_zero hden)
      omega
    have hcount := pow_le_of_digitCount hquot
    have hpos := digitCount_pos hquot
    have hexp : (digitCount (num / den) : Int) - 1 = ((digitCount (num / den) - 1 : Nat) : Int) := by
      omega
    rw [hexp, zpow_natCast]
    calc (10 : ℚ) ^ (digitCount (num / den) - 1)
        ≤ (num / den : Nat) := by exact_mod_cast hcount
      _ ≤ (num : ℚ) / den := Nat.cast_div_le
  · next hlt =>
    -- below one, the digits of the reciprocal count the zeros behind the point
    have hcount := lt_pow_digitCount ((den - 1) / num)
    have hbound : den ≤ 10 ^ digitCount ((den - 1) / num) * num := by
      have hdiv := Nat.lt_mul_of_div_lt hcount (Nat.pos_of_ne_zero hnum)
      omega
    have hexp : (1 - (digitCount ((den - 1) / num) : Int) - 1) =
        -(digitCount ((den - 1) / num) : Int) := by ring
    rw [hexp, zpow_neg, zpow_natCast, inv_eq_one_div, div_le_div_iff₀ (by positivity) hd, one_mul,
      mul_comm]
    exact_mod_cast hbound

/-! ## §3 The search -/

theorem numerator_div_denominator (m : Nat) (e : Int) :
    (numerator m e : ℚ) / denominator e = m * 2 ^ e := by
  have htwo := pow_toNat_div (b := 2) two_ne_zero e
  unfold numerator denominator
  push_cast at htwo ⊢
  rw [← htwo, mul_div_assoc]

/-- The decimal that a number of digits gives does read back. -/
theorem readsBack_of_decimalOf? {m : Nat} {e point : Int} {count d : Nat}
    (h : decimalOf? m e point count = some d) : readsBack m e d (point - count) = true := by
  unfold decimalOf? at h
  simp only at h
  split at h
  · next hlow hhigh =>
    obtain rfl := Option.some.inj h
    unfold roundEven
    simp only
    split
    · exact hlow
    · split
      · exact hhigh
      · -- at a tie the even one of the two is taken
        rcases Nat.mod_two_eq_zero_or_one (numerator m e * 10 ^ (-(point - (count : Int))).toNat /
          (denominator e * 10 ^ (point - (count : Int)).toNat)) with hmod | hmod
        · rwa [hmod, Nat.add_zero]
        · rwa [hmod]
  · next hlow _ =>
    obtain rfl := Option.some.inj h
    exact hlow
  · next _ hhigh =>
    obtain rfl := Option.some.inj h
    exact hhigh
  · exact absurd h (by simp)

/-- The quotient on the decimal grid is the last decimal that is not above the double. -/
theorem decimal_bounds (m : Nat) (e k : Int) :
    let d := numerator m e * 10 ^ (-k).toNat / (denominator e * 10 ^ k.toNat)
    (d : ℚ) * 10 ^ k ≤ m * 2 ^ e ∧ (m : ℚ) * 2 ^ e < ((d + 1 : Nat) : ℚ) * 10 ^ k := by
  intro d
  have hpos : 0 < denominator e * 10 ^ k.toNat := by
    unfold denominator
    positivity
  have hk : (0 : ℚ) < 10 ^ k := by positivity
  -- in units of `10 ^ k` the double is a quotient of whole numbers
  have hscaled : ((numerator m e * 10 ^ (-k).toNat : Nat) : ℚ) /
      ((denominator e * 10 ^ k.toNat : Nat) : ℚ) = m * 2 ^ e / 10 ^ k := by
    have hten := pow_toNat_div (b := 10) (by norm_num) k
    push_cast at hten ⊢
    rw [← numerator_div_denominator, ← hten, mul_div_mul_comm, div_eq_mul_inv _ (_ / _), inv_div]
  constructor
  · rw [← le_div_iff₀ hk, ← hscaled]
    exact Nat.cast_div_le
  · rw [← div_lt_iff₀ hk, ← hscaled, div_lt_iff₀ (by exact_mod_cast hpos)]
    have hlt : numerator m e * 10 ^ (-k).toNat < (d + 1) * (denominator e * 10 ^ k.toNat) := by
      exact Nat.lt_mul_of_div_lt (Nat.lt_succ_self d) hpos
    exact_mod_cast hlt

/-- On a grid finer than the doubles, one of the two decimals around a double rounds to it. -/
theorem roundsTo_or_roundsTo {m : Nat} {e : Int} (a u : ℚ) (ha : a ≤ m * 2 ^ e)
    (hb : (m : ℚ) * 2 ^ e < a + u) (hu : u < 2 ^ e) (hu' : m = 2 ^ 52 → u < 3 * 2 ^ (e - 2)) :
    RoundsTo .double m e a ∨ RoundsTo .double m e (a + u) := by
  have hp : (0 : ℚ) < 2 ^ (e - 2) := by positivity
  rw [RoundsTo.quarter] at ha hb hu
  set p : ℚ := 2 ^ (e - 2) with hpdef
  have hquarters : lowerQuarters .double m e =
      if m = 2 ^ 52 ∧ Width.double.lowest < e then (4 * m - 1 : ℚ) else 4 * m - 2 := rfl
  by_cases hlow : lowerQuarters .double m e * p ≤ a ∧ (m % 2 = 1 → (4 * m - 2 : ℚ) * p ≠ a)
  · -- the lower decimal is near enough
    left
    refine ⟨hlow.1, by nlinarith, ?_⟩
    intro hodd
    refine ⟨hlow.2 hodd, ?_⟩
    have hlt : a < (4 * m + 2) * p := by nlinarith
    exact hlt.ne
  · right
    -- the lower decimal is at most the lower midpoint, so the upper one is near enough
    have hle : a ≤ lowerQuarters .double m e * p := by
      by_contra hgt
      apply hlow
      refine ⟨(lt_of_not_ge hgt).le, ?_⟩
      intro hodd heq
      apply hgt
      rw [← heq, hquarters]
      split_ifs <;> nlinarith
    rw [hquarters] at hle
    have hlower : lowerQuarters .double m e * p ≤ a + u := by
      rw [hquarters]
      split_ifs <;> nlinarith
    have hupper : a + u < (4 * m + 2) * p := by
      split_ifs at hle with hm
      · have hsmall := hu' hm.1
        nlinarith
      · nlinarith
    refine ⟨hlower, hupper.le, ?_⟩
    intro hodd
    refine ⟨?_, hupper.ne⟩
    have hlt : (4 * m - 2 : ℚ) * p < a + u := by nlinarith
    exact hlt.ne

theorem decimalOf?_isSome {m : Nat} {e point : Int} {count : Nat}
    (h : let k := point - count
      let d := numerator m e * 10 ^ (-k).toNat / (denominator e * 10 ^ k.toNat)
      readsBack m e d k = true ∨ readsBack m e (d + 1) k = true) :
    (decimalOf? m e point count).isSome := by
  unfold decimalOf?
  simp only at h ⊢
  split
  · rfl
  · rfl
  · rfl
  · next hlow hhigh =>
    rw [hlow, hhigh] at h
    simp at h

/-- Seventeen digits are enough for every double. -/
theorem decimalOf?_seventeen {m : Nat} {e : Int} (hw : Width.double.Holds m e) (hm : 0 < m) :
    (decimalOf? m e (pointOf (numerator m e) (denominator e)) 17).isSome := by
  apply decimalOf?_isSome
  intro k d
  rw [readsBack_iff hm, readsBack_iff hm]
  obtain ⟨ha, hb⟩ := decimal_bounds m e k
  -- the unit of the grid is less than a part in `10 ^ 16` of the double
  have hunit : (10 : ℚ) ^ k * 10 ^ 16 ≤ m * 2 ^ e := by
    have hnum : numerator m e ≠ 0 := by
      unfold numerator
      positivity
    have hden : denominator e ≠ 0 := by
      unfold denominator
      positivity
    have hpoint := pow_pointOf_le hnum hden
    rw [numerator_div_denominator] at hpoint
    have hpow : (10 : ℚ) ^ (pointOf (numerator m e) (denominator e) - 1) = 10 ^ k * 10 ^ 16 := by
      rw [← zpow_natCast, ← zpow_add₀ (by norm_num)]
      congr 1
      simp only [k]
      push_cast
      ring
    rwa [hpow] at hpoint
  have hp : (0 : ℚ) < 2 ^ (e - 2) := by positivity
  have hmlt : (m : ℚ) ≤ 2 ^ 53 := by exact_mod_cast hw.1.le
  have hquarter := RoundsTo.quarter e
  have hnext : ((d + 1 : Nat) : ℚ) * 10 ^ k = d * 10 ^ k + 10 ^ k := by
    push_cast
    ring
  rw [hnext] at hb ⊢
  -- doubles are at least three quarters of `2 ^ e` apart, and a mantissa is at most `2 ^ 53`
  apply roundsTo_or_roundsTo _ _ ha hb
  · rw [hquarter] at hunit ⊢
    nlinarith
  · rintro rfl
    rw [hquarter] at hunit
    push_cast at hunit
    linarith

/-- A search that must succeed by its last count stops at a decimal that reads back. -/
theorem readsBack_searchDecimal {m : Nat} {e point : Int} {count rest : Nat}
    (h : (decimalOf? m e point (count + rest)).isSome) :
    readsBack m e (searchDecimal m e point count rest).1 (searchDecimal m e point count rest).2 =
      true := by
  induction rest generalizing count with
  | zero =>
    obtain ⟨d, hd⟩ := Option.isSome_iff_exists.mp h
    rw [Nat.add_zero] at hd
    simp only [searchDecimal, hd, Option.getD_some]
    exact readsBack_of_decimalOf? hd
  | succ rest ih =>
    -- the search stops here, or goes on with one count less to go
    unfold searchDecimal
    split
    · next d hd => exact readsBack_of_decimalOf? hd
    · apply ih
      rwa [Nat.add_right_comm, Nat.add_assoc]

/-! ## §4 Digits without zeros at their end -/

/-- The digits of a number are those that count, and zeros. -/
theorem toDigits_eq_significant (d : Nat) :
    ∃ n, Nat.toDigits 10 d = significant d ++ List.replicate n '0' := by
  have hsplit := List.takeWhile_append_dropWhile (p := (· = '0')) (l := (Nat.toDigits 10 d).reverse)
  have hzeros : (Nat.toDigits 10 d).reverse.takeWhile (· = '0') =
      List.replicate ((Nat.toDigits 10 d).reverse.takeWhile (· = '0')).length '0' := by
    apply List.eq_replicate_iff.mpr
    refine ⟨rfl, ?_⟩
    intro c hc
    simpa using List.all_eq_true.mp List.all_takeWhile c hc
  refine ⟨((Nat.toDigits 10 d).reverse.takeWhile (· = '0')).length, ?_⟩
  have hreverse := congrArg List.reverse hsplit
  rw [List.reverse_append, List.reverse_reverse, hzeros, List.reverse_replicate] at hreverse
  exact hreverse.symm

theorem isDigit_of_mem_significant {d : Nat} {c : Char} (h : c ∈ significant d) : c.isDigit := by
  obtain ⟨n, hn⟩ := toDigits_eq_significant d
  apply isDigit_of_mem_toDigits (n := d)
  rw [hn]
  exact List.mem_append_left _ h

/-- What the significant digits of a decimal write. -/
theorem value_significant {d : Nat} (hd : d ≠ 0) (k : Int) :
    Digits.value ⟨significant d, k + digitCount d⟩ = d * (10 : ℚ) ^ k := by
  obtain ⟨n, hn⟩ := toDigits_eq_significant d
  have hcount : digitCount d = (significant d).length + n := by
    rw [digitCount, if_neg hd, hn, List.length_append, List.length_replicate]
  have hvalue : d = digitsValue (significant d) * 10 ^ n := by
    rw [← digitsValue_append_zeros fun c => isDigit_of_mem_significant, ← hn, digitsValue_toDigits]
  have hexp : k + (digitCount d : Int) - ((significant d).length : Int) = (n : Int) + k := by
    rw [hcount]
    push_cast
    ring
  rw [Digits.value, hexp, zpow_add₀ (by norm_num), zpow_natCast, ← mul_assoc]
  congr 1
  exact_mod_cast hvalue.symm

theorem isDigit_of_mem_shortest {m : Nat} {e : Int} {c : Char} (h : c ∈ (shortest m e).digits) :
    c.isDigit := by
  unfold shortest at h
  split at h
  · exact absurd h (by simp)
  · exact isDigit_of_mem_significant h

/-- The shortest digits of a double round to it. -/
theorem shortest_roundsTo {m : Nat} {e : Int} (hw : Width.double.Holds m e) (hm : 0 < m) :
    RoundsTo .double m e (shortest m e).value := by
  set found := searchDecimal m e (pointOf (numerator m e) (denominator e)) 1 16 with hfound
  have hback : RoundsTo .double m e ((found.1 : ℚ) * 10 ^ found.2) := by
    rw [← readsBack_iff hm]
    exact readsBack_searchDecimal (decimalOf?_seventeen hw hm)
  have hne : found.1 ≠ 0 := by
    -- zero does not round to a number above zero
    intro hzero
    have hpos := hback.pos hm
    simp [hzero] at hpos
  have hshort : shortest m e = ⟨significant found.1, found.2 + digitCount found.1⟩ := by
    rw [shortest, if_neg hm.ne']
  rw [hshort, value_significant hne]
  exact hback

end Binary

end Testbed.Number

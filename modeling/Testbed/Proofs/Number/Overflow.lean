import Testbed.Proofs.Number.Float

/-!
# Which decimals overflow

A quotient is rounded above a number exactly where it is above the midpoint to the next number, the
midpoint itself counting where the mantissa is odd (`exceeds_round_iff`). So there is one bound for
each width from which on quotients become infinite, half a unit above the greatest number, and a
decimal numeral is read as a finite double exactly below the bound of the doubles
(`ofDecimal_isFinite_iff`). A finite double that is not larger than every single stays finite as a
single.
-/

namespace Testbed.Number

/-! ## §1 Decimal numerals and what they write -/

/-- Digits, with a point among them or not, and the number that they write. -/
inductive IsMantissaOf : List Char → ℚ → Prop
  | whole {ds : List Char} (hne : ds ≠ []) (hds : ∀ c ∈ ds, c.isDigit) :
      IsMantissaOf ds (Nat.ofDigitChars 10 ds 0)
  | point {whole fraction : List Char} (hne : whole ≠ [] ∨ fraction ≠ [])
      (hwhole : ∀ c ∈ whole, c.isDigit) (hfraction : ∀ c ∈ fraction, c.isDigit) :
      IsMantissaOf (whole ++ '.' :: fraction)
        (Nat.ofDigitChars 10 whole 0 + Nat.ofDigitChars 10 fraction 0 / 10 ^ fraction.length)

/-- An exponent, or nothing, and the power of ten that it stands for. -/
inductive IsExponentOf : List Char → Int → Prop
  | none : IsExponentOf [] 0
  | some {marker : Char} {cs : List Char} {n : Int} (hmarker : marker = 'e' ∨ marker = 'E')
      (hcs : IsInteger cs n) : IsExponentOf (marker :: cs) n

/-- A decimal numeral, signed or not, and its magnitude. -/
inductive IsDecimal : List Char → ℚ → Prop
  | mk {sign mantissa exponent : List Char} {m : ℚ} {e : Int} (hsign : IsSign sign)
      (hmantissa : IsMantissaOf mantissa m) (hexponent : IsExponentOf exponent e) :
      IsDecimal (sign ++ (mantissa ++ exponent)) (m * 10 ^ e)

theorem IsExponentOf.isExponent {cs : List Char} {e : Int} (h : IsExponentOf cs e) :
    IsExponent cs := by
  cases h with
  | none => exact .none
  | some hmarker hcs =>
    cases hcs with
    | plain hne hds => exact .some hmarker .none hne hds
    | plus hne hds => exact .some hmarker .plus hne hds
    | minus hne hds => exact .some hmarker .minus hne hds

/-- An exponent is read as what it says. -/
theorem IsExponentOf.read {cs : List Char} {e : Int} (h : IsExponentOf cs e) :
    readExponent? cs = .some e := by
  cases h with
  | none => rfl
  | @some marker cs n hmarker hcs =>
    cases hcs with
    | plain hne hds =>
      have hall : cs.all Char.isDigit = true := List.all_eq_true.mpr hds
      have hvalue := digitsValue_eq_ofDigitChars hds
      obtain ⟨d, ds, rfl⟩ := List.exists_cons_of_ne_nil hne
      -- a digit is no sign
      have hsign := ne_sign_of_isDigit (hds d List.mem_cons_self)
      simp [readExponent?, hmarker, hsign, hall, hvalue]
    | @plus ds hne hds =>
      have hall : ds.all Char.isDigit = true := List.all_eq_true.mpr hds
      simp [readExponent?, hmarker, hne, hall, digitsValue_eq_ofDigitChars hds]
    | @minus ds hne hds =>
      have hall : ds.all Char.isDigit = true := List.all_eq_true.mpr hds
      simp [readExponent?, hmarker, hne, hall, digitsValue_eq_ofDigitChars hds]

/-- A mantissa and an exponent are read as the number that they write. -/
theorem IsMantissaOf.writesDecimal {mantissa exponent : List Char} {m : ℚ} {e : Int}
    (hm : IsMantissaOf mantissa m) (he : IsExponentOf exponent e) :
    WritesDecimal (mantissa ++ exponent) (m * 10 ^ e) := by
  cases hm with
  | whole hne hds =>
    have hread := writesDecimal_whole hds hne he.isExponent.head he.read
    rwa [digitsValue_eq_ofDigitChars hds] at hread
  | @point whole fraction hne hwhole hfraction =>
    have hpoint : ∀ c ∈ ('.' :: (fraction ++ exponent)).head?, c.isDigit = false := by
      rintro c ⟨rfl⟩
      rfl
    have hrest := spanDigits_append hfraction fun c hc => (he.isExponent.head c hc).1
    have hdigits : ∀ c ∈ whole ++ fraction, c.isDigit := by
      simpa [or_imp, forall_and] using And.intro hwhole hfraction
    refine ⟨digitsValue (whole ++ fraction), e - fraction.length, ?_, ?_⟩
    · simp [readDecimal?, spanDigits_append hwhole hpoint, hrest, he.read, not_and_or.mpr hne]
    · -- the digits of the fraction follow those of the whole part
      rw [digitsValue_eq_ofDigitChars hdigits, Nat.ofDigitChars_append,
        Nat.ofDigitChars_eq_ofDigitChars_zero, zpow_sub₀ (by norm_num), zpow_natCast]
      push_cast
      field_simp

/-- A signed numeral is read as the double nearest to what it writes. -/
theorem IsDecimal.readFloat {cs : List Char} {q : ℚ} (h : IsDecimal cs q) :
    ∃ (negative : Bool) (digits : Nat) (exponent : Int),
      Number.readFloat cs = .ok (Binary.ofDecimal negative digits exponent) ∧
        (digits : ℚ) * 10 ^ exponent = q := by
  cases h with
  | @mk sign mantissa exponent m e hsign hmantissa hexponent =>
    have hwrites := hmantissa.writesDecimal hexponent
    cases hsign with
    | none =>
      obtain ⟨digits, power, hvalue, hread⟩ := Binary.readFloat_signed hwrites false
      exact ⟨_, digits, power, hread, hvalue⟩
    | minus =>
      obtain ⟨digits, power, hvalue, hread⟩ := Binary.readFloat_signed hwrites true
      exact ⟨_, digits, power, hread, hvalue⟩
    | plus =>
      -- a plus is skipped
      obtain ⟨digits, power, hread, hvalue⟩ := hwrites
      exact ⟨false, digits, power, by simp [Number.readFloat, hread], hvalue⟩

namespace Binary

/-! ## §2 Rounding above a number -/

/-- A whole number is exceeded by the rounding of exactly the quotients above the midpoint to the
    next; an odd one also at the midpoint. -/
theorem lt_roundEven_iff {num den n : Nat} (hden : 0 < den) :
    n < roundEven num den ↔
      (n : ℚ) + 1 / 2 < num / den ∨ n % 2 = 1 ∧ (num : ℚ) / den = n + 1 / 2 := by
  have hd : (0 : ℚ) < den := by exact_mod_cast hden
  have habove : (n : ℚ) + 1 / 2 < num / den ↔ 2 * (n * den) + den < 2 * num := by
    rw [lt_div_iff₀ hd, ← Nat.cast_lt (α := ℚ)]
    push_cast
    constructor <;> intro h <;> linarith
  have htie : (num : ℚ) / den = n + 1 / 2 ↔ 2 * num = 2 * (n * den) + den := by
    rw [div_eq_iff hd.ne', ← Nat.cast_inj (R := ℚ)]
    push_cast
    constructor <;> intro h <;> linarith
  rw [habove, htie]
  have hsplit := Nat.div_add_mod num den
  have hrem := Nat.mod_lt num hden
  rw [Nat.mul_comm den] at hsplit
  unfold roundEven
  simp only
  -- the quotient is below the number, the number itself, or above it
  rcases Nat.lt_trichotomy (num / den) n with hlt | heq | hgt
  · have hmul : (num / den + 1) * den ≤ n * den := Nat.mul_le_mul_right den hlt
    rw [Nat.add_mul] at hmul
    split_ifs <;> omega
  · rw [heq] at hsplit ⊢
    split_ifs <;> omega
  · have hmul : (n + 1) * den ≤ num / den * den := Nat.mul_le_mul_right den hgt
    rw [Nat.add_mul] at hmul
    split_ifs <;> omega

/-- Whether a quotient is nearer to the number above `m * 2 ^ e` than to that number. At the
    midpoint the one with the even mantissa is taken. -/
def Beyond (m : Nat) (e : Int) (q : ℚ) : Prop :=
  ((m : ℚ) + 1 / 2) * 2 ^ e < q ∨ m % 2 = 1 ∧ q = ((m : ℚ) + 1 / 2) * 2 ^ e

/-- Whether a number is larger in magnitude than a bound. -/
def Exceeds : Binary → ℚ → Prop
  | .finite _ m e, bound => bound < m * 2 ^ e
  | .infinite _, _ => True
  | .nan, _ => False

section

variable {w : Width} {num den m : Nat} {e : Int}

/-- At the exponent of a number its mantissa is exceeded where the number is. -/
theorem lt_mantissaAt_iff (hden : den ≠ 0) (m : Nat) (e : Int) :
    m < mantissaAt e num den ↔ Beyond m e ((num : ℚ) / den) := by
  have hp : (0 : ℚ) < 2 ^ e := by positivity
  rw [mantissaAt, lt_roundEven_iff (by positivity), scaled_quotient, lt_div_iff₀ hp,
    div_eq_iff hp.ne', Beyond]

/-- A quotient that is rounded at a lower exponent does not reach the number, rounded or not. -/
theorem lt_of_roundingExponent_lt (hfull : 2 ^ (w.precision - 1) ≤ m) (hnum : num ≠ 0)
    (hden : den ≠ 0) (hlt : roundingExponent w num den < e) :
    (num : ℚ) / den < m * 2 ^ e ∧ mantissaAt (roundingExponent w num den) num den *
      (2 : ℚ) ^ roundingExponent w num den ≤ m * 2 ^ e := by
  set f := roundingExponent w num den with hf
  have hfull' : (2 : ℚ) ^ (w.precision - 1) ≤ m := by exact_mod_cast hfull
  have hpower : (2 : ℚ) ^ (w.precision + f) ≤ m * 2 ^ e := by
    calc (2 : ℚ) ^ (w.precision + f) ≤ 2 ^ (((w.precision - 1 : Nat) : Int) + e) :=
          zpow_le_zpow_right₀ one_le_two (by omega)
      _ = 2 ^ (w.precision - 1) * 2 ^ e := by rw [zpow_add₀ two_ne_zero, zpow_natCast]
      _ ≤ m * 2 ^ e := by gcongr
  constructor
  · have hmax : floorLog num den - (w.precision - 1) ≤ f := le_max_left _ _
    calc (num : ℚ) / den < 2 ^ (floorLog num den + 1) := (floorLog_spec hnum hden).2
      _ ≤ 2 ^ (w.precision + f) := zpow_le_zpow_right₀ one_le_two (by omega)
      _ ≤ m * 2 ^ e := hpower
  · have hmantissa : (mantissaAt f num den : ℚ) ≤ 2 ^ w.precision := by
      exact_mod_cast mantissaAt_le hnum hden
    calc (mantissaAt f num den : ℚ) * 2 ^ f ≤ 2 ^ w.precision * 2 ^ f := by gcongr
      _ = 2 ^ (w.precision + f) := by rw [zpow_add₀ two_ne_zero, zpow_natCast]
      _ ≤ m * 2 ^ e := hpower

/-- A quotient that is rounded at a higher exponent is not below the next number, rounded or
    not. -/
theorem le_of_lt_roundingExponent (hw : w.Holds m e) (hp : 0 < w.precision) (hnum : num ≠ 0)
    (hden : den ≠ 0) (hgt : e < roundingExponent w num den) :
    ((m : ℚ) + 1) * 2 ^ e ≤ num / den ∧ ((m : ℚ) + 1) * 2 ^ e ≤
      mantissaAt (roundingExponent w num den) num den * 2 ^ roundingExponent w num den := by
  set f := roundingExponent w num den with hf
  obtain ⟨hmlt, hlow, -, -⟩ := hw
  have hsucc : (m : ℚ) + 1 ≤ 2 ^ w.precision := by exact_mod_cast hmlt
  have hpower : ((m : ℚ) + 1) * 2 ^ e ≤ 2 ^ (((w.precision - 1 : Nat) : Int) + f) := by
    calc ((m : ℚ) + 1) * 2 ^ e ≤ 2 ^ w.precision * 2 ^ e := by gcongr
      _ = 2 ^ (w.precision + e) := by rw [zpow_add₀ two_ne_zero, zpow_natCast]
      _ ≤ 2 ^ (((w.precision - 1 : Nat) : Int) + f) :=
          zpow_le_zpow_right₀ one_le_two (by omega)
  constructor
  · -- above the lowest exponent the quotient has the power of two of its mantissa
    have hlog : ((w.precision - 1 : Nat) : Int) + f ≤ floorLog num den := by
      rw [roundingExponent] at hf
      omega
    calc ((m : ℚ) + 1) * 2 ^ e ≤ 2 ^ (((w.precision - 1 : Nat) : Int) + f) := hpower
      _ ≤ 2 ^ floorLog num den := zpow_le_zpow_right₀ one_le_two hlog
      _ ≤ num / den := (floorLog_spec hnum hden).1
  · have hmantissa : (2 : ℚ) ^ (w.precision - 1) ≤ mantissaAt f num den := by
      exact_mod_cast le_mantissaAt hp hnum hden (by omega)
    calc ((m : ℚ) + 1) * 2 ^ e ≤ 2 ^ (((w.precision - 1 : Nat) : Int) + f) := hpower
      _ = 2 ^ (w.precision - 1) * 2 ^ f := by rw [zpow_add₀ two_ne_zero, zpow_natCast]
      _ ≤ mantissaAt f num den * 2 ^ f := by gcongr

/-- A number whose mantissa has its full length is exceeded by the rounding of exactly the quotients
    that are nearer to the next one, whatever exponent they are rounded at. -/
theorem lt_rounded_iff (hw : w.Holds m e) (hfull : 2 ^ (w.precision - 1) ≤ m)
    (hp : 0 < w.precision) (hnum : num ≠ 0) (hden : den ≠ 0) :
    (m : ℚ) * 2 ^ e < mantissaAt (roundingExponent w num den) num den *
        2 ^ roundingExponent w num den ↔ Beyond m e ((num : ℚ) / den) := by
  have hpe : (0 : ℚ) < 2 ^ e := by positivity
  rcases lt_trichotomy (roundingExponent w num den) e with hlt | heq | hgt
  · obtain ⟨hquotient, hrounded⟩ := lt_of_roundingExponent_lt hfull hnum hden hlt
    refine iff_of_false hrounded.not_gt ?_
    rintro (h | ⟨-, h⟩) <;> nlinarith
  · rw [heq, mul_lt_mul_iff_left₀ hpe, Nat.cast_lt]
    exact lt_mantissaAt_iff hden m e
  · obtain ⟨hquotient, hrounded⟩ := le_of_lt_roundingExponent hw hp hnum hden hgt
    exact iff_of_true (by nlinarith) (.inl (by nlinarith))

/-- A mantissa that is carried over is half of itself at the next exponent. -/
theorem pow_precision_mul (hp : 0 < w.precision) (e : Int) :
    (2 : ℚ) ^ w.precision * 2 ^ e = 2 ^ (w.precision - 1) * 2 ^ (e + 1) := by
  rw [← zpow_natCast, ← zpow_natCast, ← zpow_add₀ two_ne_zero, ← zpow_add₀ two_ne_zero]
  congr 1
  omega

/-- What has its full length above the highest exponent is above every number of the width. -/
theorem lt_of_highest_lt (hw : w.Holds m e) (hp : 0 < w.precision) {k : Int}
    (hk : w.highest < k) : (m : ℚ) * 2 ^ e < 2 ^ (w.precision - 1) * 2 ^ k := by
  obtain ⟨hmlt, -, hhigh, -⟩ := hw
  have hlt : (m : ℚ) < 2 ^ w.precision := by exact_mod_cast hmlt
  calc (m : ℚ) * 2 ^ e < 2 ^ w.precision * 2 ^ e := by gcongr
    _ = 2 ^ (w.precision - 1) * 2 ^ (e + 1) := pow_precision_mul hp e
    _ ≤ 2 ^ (w.precision - 1) * 2 ^ k := by
        gcongr
        · exact one_le_two
        · omega

/-- Rounding exceeds a number exactly for the quotients that are nearer to the next one. -/
theorem exceeds_round_iff (hw : w.Holds m e) (hfull : 2 ^ (w.precision - 1) ≤ m)
    (hp : 0 < w.precision) (hden : den ≠ 0) (negative : Bool) :
    (round w negative num den).Exceeds (m * 2 ^ e) ↔ Beyond m e ((num : ℚ) / den) := by
  by_cases hnum : num = 0
  · have hzero : ¬ ((m : ℚ) * 2 ^ e < 0) := not_lt.mpr (by positivity)
    have hpos : (0 : ℚ) < ((m : ℚ) + 1 / 2) * 2 ^ e := by positivity
    rw [round, if_pos hnum, hnum]
    simp only [Nat.cast_zero, zero_div, Exceeds, Beyond, zero_mul, hzero, hpos.ne, hpos.not_gt,
      and_false, or_self]
  rw [← lt_rounded_iff hw hfull hp hnum hden, round_of_ne_zero w negative hnum]
  have hlow := hw.2.1
  have hhigh := hw.2.2.1
  simp only
  set f := roundingExponent w num den with hf
  -- infinities exceed every number, and so does what became infinite
  split_ifs with h0 hcarried hbig hbig
  · simp [Exceeds, h0]
  · rw [hcarried]
    push_cast
    rw [pow_precision_mul hp]
    exact iff_of_true trivial (lt_of_highest_lt hw hp (by omega))
  · rw [hcarried]
    push_cast
    rw [pow_precision_mul hp, Exceeds]
    push_cast
    rfl
  · have hmantissa : (2 : ℚ) ^ (w.precision - 1) ≤ mantissaAt f num den := by
      exact_mod_cast le_mantissaAt hp hnum hden (by omega)
    refine iff_of_true trivial ((lt_of_highest_lt hw hp hbig).trans_le ?_)
    gcongr
  · rfl

end

/-! ## §3 The bound of a width -/

end Binary

/-- The least magnitude that becomes infinite: half a unit above the greatest number. -/
def Width.overflow (w : Width) : ℚ :=
  (2 ^ w.precision - 1 / 2) * 2 ^ w.highest

/-- A number of a width is below its bound. -/
theorem Width.Holds.lt_overflow {w : Width} {m : Nat} {e : Int} (h : w.Holds m e) :
    (m : ℚ) * 2 ^ e < w.overflow := by
  obtain ⟨hmlt, -, hhigh, -⟩ := h
  have hsucc : (m : ℚ) + 1 ≤ 2 ^ w.precision := by exact_mod_cast hmlt
  have hpow : (2 : ℚ) ^ e ≤ 2 ^ w.highest := zpow_le_zpow_right₀ one_le_two hhigh
  calc (m : ℚ) * 2 ^ e ≤ m * 2 ^ w.highest := by gcongr
    _ < (2 ^ w.precision - 1 / 2) * 2 ^ w.highest := by
        gcongr
        linarith

/-- Everything that a single can hold is far below the bound of the doubles. -/
theorem Width.single_overflow_lt : Width.single.overflow < Width.double.overflow := by
  have hpow : (2 : ℚ) ^ (104 : Int) ≤ 2 ^ (971 : Int) :=
    zpow_le_zpow_right₀ one_le_two (by decide)
  exact mul_lt_mul (by norm_num [Width.single, Width.double]) hpow (by positivity)
    (by norm_num [Width.double])

namespace Binary

variable {w : Width} {x : Binary}

/-- The greatest number is as far from infinity as from its lower neighbour, and odd. -/
theorem beyond_greatest_iff (hp : 0 < w.precision) (q : ℚ) :
    Beyond (2 ^ w.precision - 1) w.highest q ↔ w.overflow ≤ q := by
  have hodd : (2 ^ w.precision - 1) % 2 = 1 := by
    obtain ⟨n, hn⟩ := Nat.exists_eq_succ_of_ne_zero hp.ne'
    have hpos : 0 < 2 ^ n := by positivity
    rw [hn, Nat.pow_succ]
    omega
  have hbound : (((2 ^ w.precision - 1 : Nat) : ℚ) + 1 / 2) * 2 ^ w.highest = w.overflow := by
    rw [Width.overflow, Nat.cast_sub Nat.one_le_two_pow]
    push_cast
    ring
  rw [Beyond, hbound, le_iff_lt_or_eq, and_iff_right hodd, eq_comm]

/-- A number of a width is finite if it is no larger than the greatest of them. -/
theorem Fits.isFinite_iff (hx : x.Fits w) (hnan : x ≠ .nan) :
    x.isFinite = true ↔ ¬ x.Exceeds ((2 ^ w.precision - 1 : Nat) * 2 ^ w.highest) := by
  cases x with
  | finite negative m e =>
    obtain ⟨hm, -, he, -⟩ := hx
    have hm' : (m : ℚ) ≤ (2 ^ w.precision - 1 : Nat) := by exact_mod_cast Nat.le_sub_one_of_lt hm
    refine iff_of_true rfl (not_lt.mpr ?_)
    gcongr
    exact one_le_two
  | infinite negative => simp [isFinite, Exceeds]
  | nan => exact absurd rfl hnan

/-- Rounding gives numbers, or infinities. -/
theorem round_ne_nan (w : Width) (negative : Bool) (num den : Nat) :
    round w negative num den ≠ .nan := by
  unfold round
  simp only
  split_ifs <;> simp

/-- A quotient stays finite exactly below the bound of the width. -/
theorem round_isFinite_iff (hp : 0 < w.precision) (hrange : w.lowest ≤ w.highest) {num den : Nat}
    (hden : den ≠ 0) (negative : Bool) :
    (round w negative num den).isFinite = true ↔ (num : ℚ) / den < w.overflow := by
  have hhalf : 2 ^ (w.precision - 1) < 2 ^ w.precision :=
    Nat.pow_lt_pow_right (by decide) (by omega)
  have hpos : 0 < 2 ^ (w.precision - 1) := by positivity
  have hgreatest : w.Holds (2 ^ w.precision - 1) w.highest :=
    ⟨by omega, hrange, le_rfl, .inl (by omega)⟩
  rw [(round_fits hp hrange negative num hden).isFinite_iff (round_ne_nan w negative num den),
    exceeds_round_iff hgreatest (by omega) hp hden, beyond_greatest_iff hp, not_le]

/-! ## §4 Decimals -/

/-- What a decimal is read as exceeds a double exactly if the decimal is nearer to the next one,
    although very large and very small decimals are not rounded at all. -/
theorem exceeds_ofDecimal_iff {m : Nat} {e : Int} (hw : Width.double.Holds m e)
    (hfull : 2 ^ 52 ≤ m) (negative : Bool) (digits : Nat) (exponent : Int) :
    (ofDecimal negative digits exponent).Exceeds (m * 2 ^ e) ↔
      Beyond m e ((digits : ℚ) * 10 ^ exponent) := by
  obtain ⟨hmlt, hlow, hhigh, -⟩ := id hw
  have hpos : (0 : ℚ) < ((m : ℚ) + 1 / 2) * 2 ^ e := by positivity
  have hzero : ¬ (finite negative 0 Width.double.lowest).Exceeds ((m : ℚ) * 2 ^ e) := by
    rw [Exceeds, Nat.cast_zero, zero_mul, not_lt]
    positivity
  unfold ofDecimal
  simp only
  split_ifs with hdigits hlarge hsmall
  · -- nothing is written but zeros
    refine iff_of_false hzero ?_
    rw [hdigits, Nat.cast_zero, zero_mul]
    rintro (h | ⟨-, h⟩) <;> linarith
  · -- at least 10 ^ 310, beyond the greatest double
    refine iff_of_true trivial (.inl ?_)
    have hm' : (m : ℚ) + 1 ≤ 2 ^ 53 := by exact_mod_cast hmlt
    have hpow : (2 : ℚ) ^ e ≤ 2 ^ (971 : Int) := zpow_le_zpow_right₀ one_le_two hhigh
    calc ((m : ℚ) + 1 / 2) * 2 ^ e ≤ 2 ^ 53 * 2 ^ (971 : Int) :=
          mul_le_mul (by linarith) hpow (by positivity) (by positivity)
      _ < 10 ^ (310 : Int) := pow_lt_greatest
      _ ≤ digits * 10 ^ exponent := pow_le_of_large hdigits hlarge
  · -- less than 10 ^ -331, far below the least one
    refine iff_of_false hzero ?_
    have hpow : (2 : ℚ) ^ (-1074 : Int) ≤ 2 ^ e := zpow_le_zpow_right₀ one_le_two hlow
    have hlt : (digits : ℚ) * 10 ^ exponent < (m + 1 / 2) * 2 ^ e := by
      calc (digits : ℚ) * 10 ^ exponent < 10 ^ (-331 : Int) := lt_pow_of_small hsmall
        _ < 1 / 2 * 2 ^ (-1074 : Int) := pow_lt_least
        _ ≤ (m + 1 / 2) * 2 ^ e :=
            mul_le_mul (by simp) hpow (by positivity) (by positivity)
    rintro (h | ⟨-, h⟩) <;> linarith
  · -- in between the quotient is rounded
    have hten := pow_toNat_div (b := 10) (by norm_num) exponent
    have hquotient : ((digits * 10 ^ exponent.toNat : Nat) : ℚ) / (10 ^ (-exponent).toNat : Nat) =
        digits * 10 ^ exponent := by
      push_cast at hten ⊢
      rw [mul_div_assoc, hten]
    rw [exceeds_round_iff hw hfull (by decide) (by positivity), hquotient]

theorem ofDecimal_ne_nan (negative : Bool) (digits : Nat) (exponent : Int) :
    ofDecimal negative digits exponent ≠ .nan := by
  unfold ofDecimal
  simp only
  split_ifs <;> first | exact round_ne_nan _ _ _ _ | simp

/-- A decimal is read as a finite double exactly below the bound of the doubles. -/
theorem ofDecimal_isFinite_iff (negative : Bool) (digits : Nat) (exponent : Int) :
    (ofDecimal negative digits exponent).isFinite = true ↔
      (digits : ℚ) * 10 ^ exponent < Width.double.overflow := by
  rw [(ofDecimal_fits negative digits exponent).isFinite_iff (ofDecimal_ne_nan _ _ _),
    exceeds_ofDecimal_iff (by decide) (by decide), beyond_greatest_iff (by decide), not_le]

/-! ## §5 Singles -/

/-- The greatest single. -/
def greatestSingle : ℚ :=
  (2 ^ 24 - 1) * 2 ^ (104 : Int)

/-- A float is too large for a single if it is finite and exceeds the greatest one. -/
theorem exceedsSingle_iff (x : Binary) :
    x.exceedsSingle = true ↔ x.isFinite = true ∧ x.Exceeds greatestSingle := by
  cases x with
  | finite negative m e =>
    have hpos : (0 : ℚ) < denominator e := by
      unfold denominator
      positivity
    have hcast : ((2 ^ 24 - 1) * 2 ^ 104 : ℚ) * denominator e < numerator m e ↔
        (2 ^ 24 - 1) * 2 ^ 104 * denominator e < numerator m e := by
      rw [← Nat.cast_lt (α := ℚ)]
      push_cast
      norm_num
    rw [exceedsSingle, decide_eq_true_iff]
    simp only [isFinite, true_and, Exceeds, greatestSingle]
    rw [← numerator_div_denominator, lt_div_iff₀ hpos]
    exact hcast.symm
  | infinite negative => simp [exceedsSingle, isFinite]
  | nan => simp [exceedsSingle, isFinite]

theorem denominator_ne_zero (e : Int) : denominator e ≠ 0 := by
  unfold denominator
  positivity

/-- A finite double that is not larger than every single is finite as a single. -/
theorem toSingle_isFinite (hx : x.isFinite = true) (hle : x.exceedsSingle = false) :
    x.toSingle.isFinite = true := by
  cases x with
  | finite negative m e =>
    have hden := denominator_ne_zero e
    have hbelow : (m : ℚ) * 2 ^ e < Width.single.overflow := by
      have hexceeds := (exceedsSingle_iff (finite negative m e)).not.mp (by simp [hle])
      calc (m : ℚ) * 2 ^ e ≤ greatestSingle := not_lt.mp fun h => hexceeds ⟨rfl, h⟩
        _ < Width.single.overflow := by
            norm_num [greatestSingle, Width.overflow, Width.single]
    have hfits := round_fits (w := .single) (by decide) (by decide) negative (numerator m e) hden
    rw [toSingle]
    split
    · next negative' m' e' heq =>
      -- a single is a double
      rw [heq] at hfits
      rw [round_isFinite_iff (by decide) (by decide) (denominator_ne_zero e'),
        numerator_div_denominator]
      exact hfits.lt_overflow.trans Width.single_overflow_lt
    · rwa [round_isFinite_iff (by decide) (by decide) hden, numerator_div_denominator]
  | infinite negative => simp [isFinite] at hx
  | nan => simp [isFinite] at hx

end Binary

end Testbed.Number

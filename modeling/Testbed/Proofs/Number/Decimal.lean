import Testbed.Proofs.Number.Shortest

/-!
# The text of a double

The text of a finite double, in any layout, is a decimal numeral that writes the number its digits
stand for (`readDecimal?_text`), and these digits round to the double; so reading the text as a
float gives the double back, its sign included (`readFloat_dataText`).
-/

namespace Testbed.Number

/-! ## §1 Reading decimal numerals -/

theorem spanDigits_append {ds rest : List Char} (hds : ∀ c ∈ ds, c.isDigit)
    (hrest : ∀ c ∈ rest.head?, c.isDigit = false) : spanDigits (ds ++ rest) = (ds, rest) := by
  have htake : rest.takeWhile Char.isDigit = [] := by
    cases rest with
    | nil => rfl
    | cons c rest => simp [hrest c rfl]
  have hdrop : rest.dropWhile Char.isDigit = rest := by
    cases rest with
    | nil => rfl
    | cons c rest => simp [hrest c rfl]
  rw [spanDigits, List.span_eq_takeWhile_dropWhile, List.takeWhile_append_of_pos hds,
    List.dropWhile_append_of_pos hds, htake, hdrop, List.append_nil]

/-- Whether a text is a decimal numeral that writes a number. -/
def WritesDecimal (cs : List Char) (q : ℚ) : Prop :=
  ∃ digits exponent, readDecimal? cs = some (digits, exponent) ∧
    (digits : ℚ) * 10 ^ exponent = q

/-- A numeral with a point. -/
theorem writesDecimal_point {whole fraction rest : List Char} (hw : ∀ c ∈ whole, c.isDigit)
    (hne : whole ≠ []) (hf : ∀ c ∈ fraction, c.isDigit)
    (hrest : ∀ c ∈ rest.head?, c.isDigit = false) {e : Int} (he : readExponent? rest = some e) :
    WritesDecimal (whole ++ '.' :: (fraction ++ rest))
      (digitsValue (whole ++ fraction) * 10 ^ (e - (fraction.length : Int))) := by
  have hpoint : ∀ c ∈ ('.' :: (fraction ++ rest)).head?, c.isDigit = false := by
    rintro c ⟨rfl⟩
    rfl
  refine ⟨digitsValue (whole ++ fraction), e - (fraction.length : Int), ?_, rfl⟩
  simp [readDecimal?, spanDigits_append hw hpoint, spanDigits_append hf hrest, hne, he]

/-- A numeral without a point. -/
theorem writesDecimal_whole {whole rest : List Char} (hw : ∀ c ∈ whole, c.isDigit)
    (hne : whole ≠ []) (hrest : ∀ c ∈ rest.head?, c.isDigit = false ∧ c ≠ '.') {e : Int}
    (he : readExponent? rest = some e) :
    WritesDecimal (whole ++ rest) (digitsValue whole * 10 ^ e) := by
  have hspan := spanDigits_append hw fun c hc => (hrest c hc).1
  refine ⟨digitsValue whole, e, ?_, rfl⟩
  simp only [readDecimal?, hspan]
  split
  · -- what follows does not begin with a point
    exact absurd rfl (hrest '.' rfl).2
  · simp [hne, he]

theorem readExponent?_nil : readExponent? [] = some 0 := rfl

theorem not_digit_nil : ∀ c ∈ ([] : List Char).head?, c.isDigit = false := by
  simp

/-- The exponent that a layout writes. -/
theorem readExponent?_sign (n : Int) :
    readExponent? ('e' :: (if n < 0 then '-' else '+') :: Nat.toDigits 10 n.natAbs) = some n := by
  have hall : (Nat.toDigits 10 n.natAbs).all Char.isDigit = true :=
    List.all_eq_true.mpr fun c => isDigit_of_mem_toDigits
  have hne : Nat.toDigits 10 n.natAbs ≠ [] := Nat.toDigits_ne_nil
  split
  · next hn =>
    have habs : |n| = -n := abs_of_neg hn
    simp [readExponent?, hne, hall, digitsValue_toDigits, habs]
  · next hn =>
    have habs : |n| = n := abs_of_nonneg (not_lt.mp hn)
    simp [readExponent?, hne, hall, digitsValue_toDigits, habs]

/-! ## §2 The text of digits -/

namespace Binary

variable {x : Digits}

theorem isDigit_of_mem_zeros_append {ds : List Char} (hds : ∀ c ∈ ds, c.isDigit) (n : Nat) :
    ∀ c ∈ List.replicate n '0' ++ ds, c.isDigit := by
  simp only [List.mem_append, List.mem_replicate]
  rintro c (⟨-, rfl⟩ | hc)
  · rfl
  · exact hds c hc

theorem isDigit_of_mem_append_zeros {ds : List Char} (hds : ∀ c ∈ ds, c.isDigit) (n : Nat) :
    ∀ c ∈ ds ++ List.replicate n '0', c.isDigit := by
  simp only [List.mem_append, List.mem_replicate]
  rintro c (hc | ⟨-, rfl⟩)
  · exact hds c hc
  · rfl

/-- Around the decimal point. -/
theorem writesDecimal_positionalText (fraction : Bool) (hds : ∀ c ∈ x.digits, c.isDigit)
    (hne : x.digits ≠ []) : WritesDecimal (positionalText fraction x) x.value := by
  have hlen : 0 < x.digits.length := List.length_pos_iff.mpr hne
  unfold positionalText
  simp only
  split_ifs with hsmall hlarge hfraction
  · -- zeros stand in front of the digits
    have hzero : ∀ c ∈ ['0'], c.isDigit := List.forall_mem_singleton.mpr rfl
    have hread := writesDecimal_point hzero (List.cons_ne_nil _ _)
      (isDigit_of_mem_zeros_append hds (-x.point).toNat) not_digit_nil readExponent?_nil
    have htext : "0.".toList ++ List.replicate (-x.point).toNat '0' ++ x.digits =
        ['0'] ++ '.' :: (List.replicate (-x.point).toNat '0' ++ x.digits ++ []) := by
      simp
    have hdigits : digitsValue (['0'] ++ (List.replicate (-x.point).toNat '0' ++ x.digits)) =
        digitsValue x.digits := digitsValue_zeros_append hds ((-x.point).toNat + 1)
    have hexp : 0 - ((List.replicate (-x.point).toNat '0' ++ x.digits).length : Int) =
        x.point - x.digits.length := by
      rw [List.length_append, List.length_replicate]
      omega
    rw [hdigits, hexp] at hread
    rw [htext]
    exact hread
  · -- zeros stand behind the digits
    obtain ⟨n, hn⟩ := Int.eq_ofNat_of_zero_le (sub_nonneg.mpr hlarge)
    have hzero : ∀ c ∈ ['0'], c.isDigit := List.forall_mem_singleton.mpr rfl
    have hread := writesDecimal_point (isDigit_of_mem_append_zeros hds n) (by simp [hne]) hzero
      not_digit_nil readExponent?_nil
    have hdigits : digitsValue (x.digits ++ List.replicate n '0' ++ ['0']) =
        digitsValue x.digits * 10 ^ (n + 1) := by
      rw [List.append_assoc, ← List.replicate_succ']
      exact digitsValue_append_zeros hds _
    have hvalue : (digitsValue x.digits : ℚ) * 10 ^ (n : Int) =
        ((digitsValue x.digits * 10 ^ (n + 1) : Nat) : ℚ) * 10 ^ (0 - (['0'].length : Int)) := by
      rw [zpow_natCast]
      push_cast
      norm_num
      ring
    rw [Digits.value, hn, Int.toNat_natCast, hvalue, ← hdigits]
    simpa using hread
  · -- as before, but without the point and the zero behind it
    obtain ⟨n, hn⟩ := Int.eq_ofNat_of_zero_le (sub_nonneg.mpr hlarge)
    have hread := writesDecimal_whole (isDigit_of_mem_append_zeros hds n) (by simp [hne]) (by simp)
      readExponent?_nil
    rw [Digits.value, hn, Int.toNat_natCast, zpow_natCast]
    rw [digitsValue_append_zeros hds] at hread
    push_cast at hread
    simpa using hread
  · -- the point stands between digits
    have hwhole : ∀ c ∈ x.digits.take x.point.toNat, c.isDigit :=
      fun c hc => hds c (List.mem_of_mem_take hc)
    have hfraction : ∀ c ∈ x.digits.drop x.point.toNat, c.isDigit :=
      fun c hc => hds c (List.mem_of_mem_drop hc)
    have hread := writesDecimal_point hwhole (by simp [hne]; omega) hfraction not_digit_nil
      readExponent?_nil
    have hexp : 0 - ((x.digits.drop x.point.toNat).length : Int) = x.point - x.digits.length := by
      rw [List.length_drop]
      omega
    rw [List.take_append_drop, hexp, List.append_nil] at hread
    exact hread

/-- One digit, then the others, and the exponent. -/
theorem writesDecimal_exponentText (hds : ∀ c ∈ x.digits, c.isDigit) (hne : x.digits ≠ []) :
    WritesDecimal (exponentText x) x.value := by
  obtain ⟨d, ds, hcons⟩ := List.exists_cons_of_ne_nil hne
  rw [hcons] at hds
  obtain ⟨hd, hds⟩ := List.forall_mem_cons.mp hds
  have hfirst : ∀ c ∈ [d], c.isDigit := by simpa using hd
  have he := readExponent?_sign (x.point - 1)
  unfold exponentText
  simp only [hcons, List.take_succ_cons, List.take_zero, List.drop_succ_cons, List.drop_zero]
  cases ds with
  | nil =>
    -- a single digit has no point behind it
    have hread := writesDecimal_whole hfirst (List.cons_ne_nil _ _) (by simp) he
    have hexp : x.point - ([d].length : Int) = x.point - 1 := rfl
    rw [Digits.value, hcons, hexp]
    exact hread
  | cons d' ds =>
    have hread := writesDecimal_point hfirst (List.cons_ne_nil _ _) hds (by simp) he
    have hexp : x.point - ((d :: d' :: ds).length : Int) =
        x.point - 1 - ((d' :: ds).length : Int) := by
      simp
      omega
    rw [Digits.value, hcons, hexp]
    simpa using hread

/-- A layout writes the value of its digits. -/
theorem writesDecimal_text (l : Layout) (hds : ∀ c ∈ x.digits, c.isDigit) (hne : x.digits ≠ []) :
    WritesDecimal (l.text x) x.value := by
  unfold Layout.text
  simp only
  split
  · exact writesDecimal_positionalText l.fraction hds hne
  · exact writesDecimal_exponentText hds hne

/-! ## §3 Reading the text back -/

/-- Ten to the 310 is beyond every double. -/
theorem pow_lt_greatest : (2 : ℚ) ^ 53 * 2 ^ (971 : Int) < 10 ^ (310 : Int) := by
  have h : 2 ^ 53 * 2 ^ 971 < 10 ^ 310 := by decide +kernel
  exact_mod_cast h

/-- Ten to the -331 is nearer to zero than to the least double. -/
theorem pow_lt_least : (10 : ℚ) ^ (-331 : Int) < 1 / 2 * 2 ^ (-1074 : Int) := by
  have h : 2 * 2 ^ 1074 < 10 ^ 331 := by decide +kernel
  have hq : (2 : ℚ) * 2 ^ 1074 < 10 ^ 331 := by exact_mod_cast h
  rw [zpow_neg, zpow_neg, one_div, ← mul_inv]
  exact (inv_lt_inv₀ (by positivity) (by positivity)).mpr (by exact_mod_cast hq)

/-- A decimal lies between the powers of ten that the place of its first digit says. -/
theorem decimal_lt_pow (digits : Nat) (exponent : Int) :
    (digits : ℚ) * 10 ^ exponent < 10 ^ (exponent + digitCount digits) := by
  have hcount : (digits : ℚ) < 10 ^ digitCount digits := by
    exact_mod_cast lt_pow_digitCount digits
  rw [add_comm, zpow_add₀ (by norm_num), zpow_natCast]
  gcongr

theorem pow_le_decimal {digits : Nat} (h : digits ≠ 0) (exponent : Int) :
    (10 : ℚ) ^ (exponent + digitCount digits - 1) ≤ digits * 10 ^ exponent := by
  have hcount : (10 : ℚ) ^ (digitCount digits - 1) ≤ digits := by
    exact_mod_cast pow_le_of_digitCount h
  have hpos := digitCount_pos h
  have hexp : exponent + (digitCount digits : Int) - 1 =
      ((digitCount digits - 1 : Nat) : Int) + exponent := by omega
  rw [hexp, zpow_add₀ (by norm_num), zpow_natCast]
  gcongr

/-- What is cut off without computing its power of ten is far above every double, or far below. -/
theorem pow_le_of_large {digits : Nat} {exponent : Int} (h : digits ≠ 0)
    (hlarge : 310 < exponent + digitCount digits) :
    (10 : ℚ) ^ (310 : Int) ≤ digits * 10 ^ exponent :=
  (zpow_le_zpow_right₀ (by norm_num) (by omega)).trans (pow_le_decimal h exponent)

/-- Digits with an exponent far below zero stay below that power of ten. -/
theorem lt_pow_of_small {digits : Nat} {exponent : Int}
    (hsmall : exponent + digitCount digits < -330) :
    (digits : ℚ) * 10 ^ exponent < 10 ^ (-331 : Int) :=
  (decimal_lt_pow digits exponent).trans_le (zpow_le_zpow_right₀ (by norm_num) (by omega))

/-- A decimal that rounds to a double is in the range that is rounded at all. -/
theorem ofDecimal_eq {m : Nat} {e : Int} (hw : Width.double.Holds m e) (hm : 0 < m) {digits : Nat}
    {exponent : Int} (h : RoundsTo .double m e ((digits : ℚ) * 10 ^ exponent)) (negative : Bool) :
    ofDecimal negative digits exponent = .finite negative m e := by
  have hq := h.pos hm
  have hdigits : digits ≠ 0 := by
    rintro rfl
    simp at hq
  obtain ⟨hmlt, hlow, hhigh, -⟩ := id hw
  have hlower := h.le_scaled
  have hupper := h.scaled_le
  have hp : (0 : ℚ) < 2 ^ e := by positivity
  rw [le_div_iff₀ hp] at hlower
  rw [div_le_iff₀ hp] at hupper
  have hlarge : exponent + digitCount digits ≤ 310 := by
    -- otherwise the decimal is above the greatest double and half a unit more
    by_contra hgt
    have hge := pow_le_of_large hdigits (lt_of_not_ge hgt)
    have hm' : (m : ℚ) + 1 ≤ 2 ^ 53 := by exact_mod_cast hmlt
    have hpow : (2 : ℚ) ^ e ≤ 2 ^ (971 : Int) := zpow_le_zpow_right₀ one_le_two hhigh
    have hlt : ((m : ℚ) + 1 / 2) * 2 ^ e < 10 ^ (310 : Int) := by
      calc ((m : ℚ) + 1 / 2) * 2 ^ e ≤ 2 ^ 53 * 2 ^ (971 : Int) :=
            mul_le_mul (by linarith) hpow (by positivity) (by positivity)
        _ < 10 ^ (310 : Int) := pow_lt_greatest
    linarith
  have hsmall : -330 ≤ exponent + digitCount digits := by
    -- otherwise the decimal is below half of the least double
    by_contra hlt
    have hle := lt_pow_of_small (lt_of_not_ge hlt)
    have hm' : (1 : ℚ) ≤ m := by exact_mod_cast hm
    have hpow : (2 : ℚ) ^ (-1074 : Int) ≤ 2 ^ e := zpow_le_zpow_right₀ one_le_two hlow
    have hgt : (10 : ℚ) ^ (-331 : Int) < (m - 1 / 2) * 2 ^ e := by
      calc (10 : ℚ) ^ (-331 : Int) < 1 / 2 * 2 ^ (-1074 : Int) := pow_lt_least
        _ ≤ (m - 1 / 2) * 2 ^ e := mul_le_mul (by linarith) hpow (by positivity) (by linarith)
    linarith
  have hten := pow_toNat_div (b := 10) (by norm_num) exponent
  unfold ofDecimal
  simp only
  rw [if_neg hdigits, if_neg (by omega), if_neg (by omega)]
  apply round_eq (by decide) hw hm (by positivity)
  push_cast at hten ⊢
  rw [mul_div_assoc, hten]
  exact h

theorem exists_cons_of_writesDecimal {cs : List Char} {q : ℚ} (h : WritesDecimal cs q) :
    ∃ c rest, cs = c :: rest ∧ c ≠ '-' ∧ c ≠ '+' := by
  obtain ⟨digits, exponent, hread, -⟩ := h
  cases cs with
  | nil => simp [readDecimal?, spanDigits, List.span_eq_takeWhile_dropWhile] at hread
  | cons c rest =>
    refine ⟨c, rest, rfl, ?_, ?_⟩
    · rintro rfl
      simp [readDecimal?, spanDigits, List.span_eq_takeWhile_dropWhile] at hread
    · rintro rfl
      simp [readDecimal?, spanDigits, List.span_eq_takeWhile_dropWhile] at hread

/-- A signed decimal numeral is read as the double that its decimal rounds to. -/
theorem readFloat_signed {cs : List Char} {q : ℚ} (h : WritesDecimal cs q) (negative : Bool) :
    ∃ (digits : Nat) (exponent : Int), (digits : ℚ) * 10 ^ exponent = q ∧
      readFloat ((if negative then ['-'] else []) ++ cs) =
        .ok (ofDecimal negative digits exponent) := by
  obtain ⟨c, rest, rfl, hminus, hplus⟩ := exists_cons_of_writesDecimal h
  obtain ⟨digits, exponent, hread, hvalue⟩ := h
  refine ⟨digits, exponent, hvalue, ?_⟩
  -- a numeral without a sign does not begin with one
  cases negative with
  | true => simp [readFloat, hread]
  | false => simp [readFloat, hread, hminus, hplus]

/-- The text of a finite double that is not zero is read as that double, in every layout. -/
theorem readFloat_ofFinite (l : Layout) {m : Nat} {e : Int} (hw : Width.double.Holds m e)
    (hm : 0 < m) (negative : Bool) :
    readFloat (l.ofFinite negative m e).toList = .ok (.finite negative m e) := by
  have hround := shortest_roundsTo hw hm
  have hne : (shortest m e).digits ≠ [] := by
    -- no digits would write zero
    intro hnil
    have hpos := hround.pos hm
    simp [Digits.value, hnil, digitsValue] at hpos
  obtain ⟨digits, exponent, hvalue, hread⟩ :=
    readFloat_signed (writesDecimal_text l (fun c => isDigit_of_mem_shortest) hne) negative
  rw [← hvalue] at hround
  rw [Layout.ofFinite, String.toList_ofList, hread, ofDecimal_eq hw hm hround]

/-- The text of a finite double as data is read as that double. -/
theorem readFloat_dataText {x : Binary} (hx : x.Fits .double) {text : String}
    (h : x.dataText? = some text) : readFloat text.toList = .ok x := by
  cases x with
  | finite negative m e =>
    obtain rfl := Option.some.inj h
    rcases Nat.eq_zero_or_pos m with rfl | hm
    · -- zero has no digits, and one text for each sign
      obtain ⟨-, -, -, hfull⟩ := hx
      obtain rfl : e = -1074 := hfull.resolve_left (by decide)
      cases negative <;> rfl
    · exact readFloat_ofFinite .scientific hx hm negative
  | infinite negative => simp [dataText?] at h
  | nan => simp [dataText?] at h

/-! ## §4 What reading gives -/

/-- What is read from a decimal fits a double. -/
theorem ofDecimal_fits (negative : Bool) (digits : Nat) (exponent : Int) :
    (ofDecimal negative digits exponent).Fits .double := by
  unfold ofDecimal
  simp only
  split_ifs
  · exact (by decide : Width.double.Holds 0 Width.double.lowest)
  · trivial
  · exact (by decide : Width.double.Holds 0 Width.double.lowest)
  · exact round_fits (by decide) (by decide) negative _ (by positivity)

/-- Infinities and what is no number fit a double. -/
theorem readNamed?_fits {negative : Bool} {cs : List Char} {x : Binary}
    (h : readNamed? negative cs = some x) : x.Fits .double := by
  unfold readNamed? at h
  simp only at h
  split_ifs at h
  · obtain rfl := Option.some.inj h
    trivial
  · obtain rfl := Option.some.inj h
    trivial

/-- A float that is read is in the normal form of a double. -/
theorem readFloat_fits {cs : List Char} {x : Binary} (h : readFloat cs = .ok x) :
    x.Fits .double := by
  unfold readFloat at h
  split at h
  · simp at h
  · simp only at h
    split at h
    · obtain rfl := Except.ok.inj h
      exact ofDecimal_fits _ _ _
    · -- no decimal: one of the names, or no float at all
      split at h
      · next y hnamed =>
        obtain rfl := Except.ok.inj h
        exact readNamed?_fits hnamed
      · simp at h

end Binary

end Testbed.Number

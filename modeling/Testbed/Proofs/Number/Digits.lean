import Mathlib.Tactic.Ring
import Testbed.Number.Numeral
import Testbed.Number.Shortest

/-!
# Digits and integer numerals

An integer numeral is an optional sign and at least one ASCII digit, and denotes the integer that
these digits write. Reading one between bounds succeeds exactly on the numerals of integers between
these bounds (`readInt_eq_ok_iff`), although the bounds are checked digit by digit. The text of an
integer is a numeral of it (`isInteger_toString`).
-/

namespace Testbed.Number

/-! ## §1 Digits -/

theorem digitValue?_eq_some {c : Char} (h : c.isDigit) :
    digitValue? c = some (c.toNat - '0'.toNat) := by
  simp [digitValue?, h]

theorem digitValue?_eq_none {c : Char} (h : c.isDigit = false) : digitValue? c = none := by
  simp [digitValue?, h]

/-- On digits, what a run of them denotes is what they write. -/
theorem digitsValue_eq_ofDigitChars {cs : List Char} (h : ∀ c ∈ cs, c.isDigit) :
    digitsValue cs = Nat.ofDigitChars 10 cs 0 := by
  have hfold : ∀ init, cs.foldl (fun value c => value * 10 + (digitValue? c).getD 0) init =
      Nat.ofDigitChars 10 cs init := by
    induction cs with
    | nil => simp
    | cons c cs ih =>
      intro init
      obtain ⟨hc, hcs⟩ := List.forall_mem_cons.mp h
      rw [List.foldl_cons, digitValue?_eq_some hc, Nat.ofDigitChars_cons, ih hcs, Nat.mul_comm]
      rfl
  exact hfold 0

theorem isDigit_of_mem_toDigits {n : Nat} {c : Char} (h : c ∈ Nat.toDigits 10 n) : c.isDigit :=
  Nat.isDigit_of_mem_toDigits (by decide) (by decide) h

/-- The digits of a number have its value. -/
theorem digitsValue_toDigits (n : Nat) : digitsValue (Nat.toDigits 10 n) = n := by
  rw [digitsValue_eq_ofDigitChars fun c => isDigit_of_mem_toDigits]
  exact Nat.ofDigitChars_ten_toDigits

/-- Zeros at the end of digits multiply by powers of ten. -/
theorem digitsValue_append_zeros {cs : List Char} (h : ∀ c ∈ cs, c.isDigit) (n : Nat) :
    digitsValue (cs ++ List.replicate n '0') = digitsValue cs * 10 ^ n := by
  have hzeros : ∀ c ∈ cs ++ List.replicate n '0', c.isDigit := by
    simp only [List.mem_append, List.mem_replicate]
    rintro c (hc | ⟨-, rfl⟩)
    · exact h c hc
    · rfl
  rw [digitsValue_eq_ofDigitChars hzeros, digitsValue_eq_ofDigitChars h, Nat.ofDigitChars_append,
    Nat.ofDigitChars_replicate_zero, Nat.mul_comm]

/-- Zeros in front of digits change nothing. -/
theorem digitsValue_zeros_append {cs : List Char} (h : ∀ c ∈ cs, c.isDigit) (n : Nat) :
    digitsValue (List.replicate n '0' ++ cs) = digitsValue cs := by
  have hzeros : ∀ c ∈ List.replicate n '0' ++ cs, c.isDigit := by
    simp only [List.mem_append, List.mem_replicate]
    rintro c (⟨-, rfl⟩ | hc)
    · rfl
    · exact h c hc
  rw [digitsValue_eq_ofDigitChars hzeros, digitsValue_eq_ofDigitChars h, Nat.ofDigitChars_append,
    Nat.ofDigitChars_replicate_zero, Nat.mul_zero]

theorem le_ofDigitChars (cs : List Char) (value : Nat) : value ≤ Nat.ofDigitChars 10 cs value := by
  rw [Nat.ofDigitChars_eq_ofDigitChars_zero]
  have hpow : 1 ≤ 10 ^ cs.length := Nat.one_le_pow _ _ (by decide)
  have hmul : 1 * value ≤ 10 ^ cs.length * value := Nat.mul_le_mul_right value hpow
  omega

/-! ## §2 Integer numerals -/

/-- Whether a text is a numeral of an integer: an optional sign and at least one digit. -/
inductive IsInteger : List Char → Int → Prop
  | plain {ds : List Char} (hne : ds ≠ []) (hds : ∀ c ∈ ds, c.isDigit) :
      IsInteger ds (Nat.ofDigitChars 10 ds 0)
  | plus {ds : List Char} (hne : ds ≠ []) (hds : ∀ c ∈ ds, c.isDigit) :
      IsInteger ('+' :: ds) (Nat.ofDigitChars 10 ds 0)
  | minus {ds : List Char} (hne : ds ≠ []) (hds : ∀ c ∈ ds, c.isDigit) :
      IsInteger ('-' :: ds) (-Nat.ofDigitChars 10 ds 0)

/-- Digits are read onto a value as long as what they write is in bounds; it only grows. -/
theorem readUp_eq_ok_iff {high : Int} {value : Nat} (hvalue : value ≤ high) {cs : List Char}
    {n : Int} :
    readUp high value cs = .ok n ↔
      (∀ c ∈ cs, c.isDigit) ∧ (Nat.ofDigitChars 10 cs value : Int) = n ∧ n ≤ high := by
  induction cs generalizing value with
  | nil =>
    simp only [readUp, Except.ok.injEq, Nat.ofDigitChars_nil]
    grind
  | cons c cs ih =>
    by_cases hc : c.isDigit
    · simp only [readUp, digitValue?_eq_some hc, List.forall_mem_cons, hc, true_and,
        Nat.ofDigitChars_cons]
      have hnext : (value : Int) * 10 + (c.toNat - '0'.toNat : Nat) =
          (10 * value + (c.toNat - '0'.toNat) : Nat) := by
        push_cast
        ring
      rw [hnext]
      split
      · -- too large already, and what is written can only be larger
        next hhigh =>
        have hgrow := le_ofDigitChars cs (10 * value + (c.toNat - '0'.toNat))
        simp only [reduceCtorEq, false_iff]
        rintro ⟨-, heq, hle⟩
        omega
      · next hhigh =>
        apply ih
        omega
    · simp [readUp, digitValue?_eq_none (Bool.of_not_eq_true hc), hc]

/-- A negative numeral is read from its digits, down to the least number allowed. -/
theorem readDown_eq_ok_iff {low : Int} {value : Nat} (hvalue : low ≤ -(value : Int))
    {cs : List Char} {n : Int} :
    readDown low (-(value : Int)) cs = .ok n ↔
      (∀ c ∈ cs, c.isDigit) ∧ -(Nat.ofDigitChars 10 cs value : Int) = n ∧ low ≤ n := by
  induction cs generalizing value with
  | nil =>
    simp only [readDown, Except.ok.injEq, Nat.ofDigitChars_nil]
    grind
  | cons c cs ih =>
    by_cases hc : c.isDigit
    · simp only [readDown, digitValue?_eq_some hc, List.forall_mem_cons, hc, true_and,
        Nat.ofDigitChars_cons]
      have hnext : -(value : Int) * 10 - (c.toNat - '0'.toNat : Nat) =
          -((10 * value + (c.toNat - '0'.toNat) : Nat) : Int) := by
        push_cast
        ring
      rw [hnext]
      split
      · next hlow =>
        have hgrow := le_ofDigitChars cs (10 * value + (c.toNat - '0'.toNat))
        simp only [reduceCtorEq, false_iff]
        rintro ⟨-, heq, hle⟩
        omega
      · next hlow =>
        apply ih
        omega
    · simp [readDown, digitValue?_eq_none (Bool.of_not_eq_true hc), hc]

/-- Reading succeeds exactly on the numerals of integers between the bounds. Where there are no
    negative numbers a minus sign is not read at all. -/
theorem readInt_eq_ok_iff {low high : Int} (hlow : low ≤ 0) (hhigh : 0 ≤ high) {cs : List Char}
    {n : Int} :
    readInt low high cs = .ok n ↔
      IsInteger cs n ∧ low ≤ n ∧ n ≤ high ∧ (cs.head? = some '-' → low < 0) := by
  have hup := @readUp_eq_ok_iff high 0 (by simpa using hhigh)
  have hdown := @readDown_eq_ok_iff low 0 (by simpa using hlow)
  constructor
  · intro h
    unfold readInt at h
    split at h
    · simp at h
    · simp at h
    · simp at h
    · next rest hne =>
      obtain ⟨hds, rfl, hle⟩ := hup.mp h
      exact ⟨.plus (by simpa using hne) hds, by omega, hle, by simp⟩
    · next rest _ hne =>
      split at h
      · next hneg =>
        obtain ⟨hds, rfl, hle⟩ := hdown.mp h
        exact ⟨.minus (by simpa using hne) hds, hle, by omega, fun _ => hneg⟩
      · -- where no number is negative the sign is a wrong digit
        simp at h
    · next hnil _ _ hplus hminus =>
      obtain ⟨hds, rfl, hle⟩ := hup.mp h
      refine ⟨.plain hnil hds, by omega, hle, ?_⟩
      intro hhead
      obtain ⟨rest, rfl⟩ := List.head?_eq_some_iff.mp hhead
      exact absurd rfl (hminus rest)
  · rintro ⟨hint, hle, hge, hsign⟩
    cases hint with
    | plain hne hds =>
      have hread := hup.mpr ⟨hds, rfl, hge⟩
      obtain ⟨c, ds, rfl⟩ := List.exists_cons_of_ne_nil hne
      -- a digit is no sign
      have hc : c.isDigit := hds c (by simp)
      have hplus : c ≠ '+' := by
        rintro rfl
        exact absurd hc (by simp)
      have hminus : c ≠ '-' := by
        rintro rfl
        exact absurd hc (by simp)
      simpa [readInt, hplus, hminus] using hread
    | plus hne hds =>
      obtain ⟨c, ds, rfl⟩ := List.exists_cons_of_ne_nil hne
      exact hup.mpr ⟨hds, rfl, hge⟩
    | minus hne hds =>
      obtain ⟨c, ds, rfl⟩ := List.exists_cons_of_ne_nil hne
      have hneg : low < 0 := hsign rfl
      simp only [readInt, hneg, if_true]
      exact hdown.mpr ⟨hds, rfl, hle⟩

/-! ## §3 The text of an integer -/

theorem isInteger_toDigits (n : Nat) : IsInteger (Nat.toDigits 10 n) n := by
  have h : IsInteger (Nat.toDigits 10 n) (Nat.ofDigitChars 10 (Nat.toDigits 10 n) 0) :=
    .plain Nat.toDigits_ne_nil fun c => isDigit_of_mem_toDigits
  rwa [Nat.ofDigitChars_ten_toDigits] at h

/-- An integer is written as a numeral for it. -/
theorem isInteger_toString (n : Int) : IsInteger (toString n).toList n := by
  cases n with
  | ofNat m =>
    have htext : (toString (Int.ofNat m)).toList = Nat.toDigits 10 m := Nat.toList_repr
    rw [htext]
    exact isInteger_toDigits m
  | negSucc m =>
    have htext : (toString (Int.negSucc m)).toList = '-' :: Nat.toDigits 10 (m + 1) := by
      show ("-" ++ (m + 1).repr).toList = _
      rw [String.toList_append, Nat.toList_repr]
      rfl
    have h : IsInteger ('-' :: Nat.toDigits 10 (m + 1))
        (-Nat.ofDigitChars 10 (Nat.toDigits 10 (m + 1)) 0) :=
      .minus Nat.toDigits_ne_nil fun c => isDigit_of_mem_toDigits
    rw [Nat.ofDigitChars_ten_toDigits] at h
    rw [htext]
    exact h

/-- The text of an integer is read back, between any bounds that hold it. -/
theorem readInt_toString {low high n : Int} (hlow : low < 0) (hhigh : 0 ≤ high) (hn : low ≤ n)
    (hn' : n ≤ high) : readInt low high (toString n).toList = .ok n :=
  (readInt_eq_ok_iff (Int.le_of_lt hlow) hhigh).mpr ⟨isInteger_toString n, hn, hn', fun _ => hlow⟩

end Testbed.Number

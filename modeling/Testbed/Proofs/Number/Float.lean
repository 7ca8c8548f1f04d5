import Mathlib.Data.List.TakeWhile
import Testbed.Proofs.Number.Decimal

/-!
# Which texts are floats

A float numeral is a sign or none, and then either decimal digits, with a point among them or not
and an exponent behind them or not, or the name of a number that is not finite. Reading comes to a
double exactly on these (`readFloat_ok_iff`); how large the number is plays no part.
-/

namespace Testbed.Number

/-! ## §1 The parts of a numeral -/

/-- Whether a text is a sign, or empty. -/
inductive IsSign : List Char → Prop
  | none : IsSign []
  | plus : IsSign ['+']
  | minus : IsSign ['-']

/-- Whether a text is digits, with a point among them or not. -/
inductive IsMantissa : List Char → Prop
  | whole {ds : List Char} (hne : ds ≠ []) (hds : ∀ c ∈ ds, c.isDigit) : IsMantissa ds
  | point {whole fraction : List Char} (hne : whole ≠ [] ∨ fraction ≠ [])
      (hwhole : ∀ c ∈ whole, c.isDigit) (hfraction : ∀ c ∈ fraction, c.isDigit) :
      IsMantissa (whole ++ '.' :: fraction)

/-- Whether a text is an exponent, or empty. -/
inductive IsExponent : List Char → Prop
  | none : IsExponent []
  | some {marker : Char} {sign ds : List Char} (hmarker : marker = 'e' ∨ marker = 'E')
      (hsign : IsSign sign) (hne : ds ≠ []) (hds : ∀ c ∈ ds, c.isDigit) :
      IsExponent (marker :: (sign ++ ds))

/-- Whether a text names a number that is not finite, in any case. -/
def IsNamed (cs : List Char) : Prop :=
  cs.map Char.toLower ∈ ["inf".toList, "infinity".toList, "nan".toList]

/-- Whether a text is a float numeral. -/
inductive IsFloat : List Char → Prop
  | decimal {sign mantissa exponent : List Char} (hsign : IsSign sign)
      (hmantissa : IsMantissa mantissa) (hexponent : IsExponent exponent) :
      IsFloat (sign ++ (mantissa ++ exponent))
  | named {sign name : List Char} (hsign : IsSign sign) (hname : IsNamed name) :
      IsFloat (sign ++ name)

/-! ## §2 Reading the parts -/

/-- What begins with neither a digit nor a point. -/
theorem IsExponent.head {cs : List Char} (h : IsExponent cs) :
    ∀ c ∈ cs.head?, c.isDigit = false ∧ c ≠ '.' := by
  cases h with
  | none => simp
  | some hmarker _ _ _ =>
    rintro c ⟨rfl⟩
    rcases hmarker with rfl | rfl <;> decide

/-- No digit is a sign. -/
theorem ne_sign_of_isDigit {c : Char} (h : c.isDigit) : c ≠ '-' ∧ c ≠ '+' := by
  constructor <;> rintro rfl <;> exact absurd h (by decide)

/-- An exponent is read if it is one by the grammar. -/
theorem readExponent?_isSome_iff {cs : List Char} :
    (readExponent? cs).isSome ↔ IsExponent cs := by
  constructor
  · intro h
    unfold readExponent? at h
    split at h
    · exact .none
    · next marker cs =>
      split at h
      · next hmarker =>
        split at h
        next negative ds hsplit =>
        -- a sign belongs to the exponent where there is one
        obtain ⟨sign, hsign, rfl⟩ : ∃ sign, IsSign sign ∧ cs = sign ++ ds := by
          split at hsplit <;> cases hsplit
          · exact ⟨_, .minus, rfl⟩
          · exact ⟨_, .plus, rfl⟩
          · exact ⟨_, .none, rfl⟩
        have hds : ds ≠ [] ∧ ∀ c ∈ ds, c.isDigit := by simpa using h
        exact .some hmarker hsign hds.1 hds.2
      · cases h
  · intro h
    cases h with
    | none => rfl
    | @some marker sign ds hmarker hsign hne hds =>
      have hall : ds.all Char.isDigit = true := List.all_eq_true.mpr hds
      cases hsign with
      | plus => simp [readExponent?, hmarker, hne, hall]
      | minus => simp [readExponent?, hmarker, hne, hall]
      | none =>
        obtain ⟨d, ds, rfl⟩ := List.exists_cons_of_ne_nil hne
        have hsign := ne_sign_of_isDigit (hds d List.mem_cons_self)
        simpa [readExponent?, hmarker, hsign] using hall

/-- A run of digits in front of a text is cut off from it. -/
theorem spanDigits_spec {cs ds rest : List Char} (h : spanDigits cs = (ds, rest)) :
    cs = ds ++ rest ∧ ∀ c ∈ ds, c.isDigit := by
  rw [spanDigits, List.span_eq_takeWhile_dropWhile] at h
  obtain ⟨rfl, rfl⟩ := Prod.mk.inj h
  exact ⟨List.takeWhile_append_dropWhile.symm, fun c hc => List.mem_takeWhile_imp hc⟩

/-- A decimal is read if it is a mantissa and an exponent by the grammar. -/
theorem readDecimal?_isSome_iff {cs : List Char} :
    (readDecimal? cs).isSome ↔
      ∃ mantissa exponent, IsMantissa mantissa ∧ IsExponent exponent ∧
        cs = mantissa ++ exponent := by
  constructor
  · intro h
    unfold readDecimal? at h
    obtain ⟨⟨whole, rest⟩, hspan⟩ : ∃ split, spanDigits cs = split := ⟨_, rfl⟩
    obtain ⟨rfl, hwhole⟩ := spanDigits_spec hspan
    simp only [hspan] at h
    split at h
    · -- behind a point there is a fraction
      next _ rest =>
      obtain ⟨⟨fraction, exponent⟩, hspan'⟩ : ∃ split, spanDigits rest = split := ⟨_, rfl⟩
      obtain ⟨rfl, hfraction⟩ := spanDigits_spec hspan'
      simp only [hspan'] at h
      split at h
      · cases h
      · next hne =>
        rw [Option.isSome_map, readExponent?_isSome_iff] at h
        exact ⟨_, _, .point (not_and_or.mp hne) hwhole hfraction, h, by simp⟩
    · split at h
      · cases h
      · next hne =>
        rw [Option.isSome_map, readExponent?_isSome_iff] at h
        exact ⟨_, _, .whole (by simpa using hne) hwhole, h, rfl⟩
  · -- what the grammar allows is read: its mantissa up to the exponent, then the exponent
    rintro ⟨mantissa, exponent, hmantissa, hexponent, rfl⟩
    obtain ⟨e, he⟩ := Option.isSome_iff_exists.mp (readExponent?_isSome_iff.mpr hexponent)
    cases hmantissa with
    | whole hne hds =>
      obtain ⟨digits, power, hread, -⟩ := writesDecimal_whole hds hne hexponent.head he
      simp [hread]
    | @point whole fraction hne hwhole hfraction =>
      have hpoint : ∀ c ∈ ('.' :: (fraction ++ exponent)).head?, c.isDigit = false := by
        rintro c ⟨rfl⟩
        rfl
      have hrest := spanDigits_append hfraction fun c hc => (hexponent.head c hc).1
      simp [readDecimal?, spanDigits_append hwhole hpoint, hrest, he, not_and_or.mpr hne]

/-! ## §3 Reading floats -/

/-- A name for an infinity or for no number is read if it is one by the grammar. -/
theorem readNamed?_isSome_iff (negative : Bool) {cs : List Char} :
    (readNamed? negative cs).isSome ↔ IsNamed cs := by
  simp only [readNamed?, IsNamed, List.mem_cons, List.not_mem_nil, or_false, ← or_assoc]
  split
  · next h => exact ⟨fun _ => .inl h, fun _ => rfl⟩
  · next h =>
    split
    · next h' => exact ⟨fun _ => .inr h', fun _ => rfl⟩
    · next h' => simp only [Option.isSome_none, Bool.false_eq_true, h, h', or_self]

/-- Whether a text can stand behind the sign of a float. -/
def IsMagnitude (cs : List Char) : Prop :=
  (∃ mantissa exponent, IsMantissa mantissa ∧ IsExponent exponent ∧ cs = mantissa ++ exponent) ∨
    IsNamed cs

/-- No magnitude begins with a sign. -/
theorem IsMagnitude.exists_cons {cs : List Char} (h : IsMagnitude cs) :
    ∃ c rest, cs = c :: rest ∧ c ≠ '-' ∧ c ≠ '+' := by
  rcases h with ⟨mantissa, exponent, hmantissa, -, rfl⟩ | hname
  · cases hmantissa with
    | whole hne hds =>
      obtain ⟨d, ds, rfl⟩ := List.exists_cons_of_ne_nil hne
      exact ⟨d, _, rfl, ne_sign_of_isDigit (hds d List.mem_cons_self)⟩
    | @point whole fraction _ hwhole _ =>
      cases whole with
      | nil => exact ⟨'.', _, rfl, by decide, by decide⟩
      | cons d whole => exact ⟨d, _, rfl, ne_sign_of_isDigit (hwhole d List.mem_cons_self)⟩
  · -- a sign is not a letter in any case
    cases cs with
    | nil => simp [IsNamed] at hname
    | cons c rest =>
      refine ⟨c, rest, rfl, ?_, ?_⟩ <;> rintro rfl <;> simp [IsNamed] at hname

/-- A numeral for a float is a sign and a magnitude. -/
theorem isFloat_iff {cs : List Char} :
    IsFloat cs ↔
      ∃ sign magnitude, IsSign sign ∧ IsMagnitude magnitude ∧ cs = sign ++ magnitude := by
  constructor
  · intro h
    cases h with
    | decimal hsign hmantissa hexponent =>
      exact ⟨_, _, hsign, .inl ⟨_, _, hmantissa, hexponent, rfl⟩, rfl⟩
    | named hsign hname => exact ⟨_, _, hsign, .inr hname, rfl⟩
  · rintro ⟨sign, _, hsign, ⟨mantissa, exponent, hmantissa, hexponent, rfl⟩ | hname, rfl⟩
    · exact .decimal hsign hmantissa hexponent
    · exact .named hsign hname

/-- What stands behind the sign of a text that is not empty. -/
theorem readFloat_cons_ok_iff (c : Char) (rest : List Char) :
    (∃ x, readFloat (c :: rest) = .ok x) ↔
      IsMagnitude (if c = '-' ∨ c = '+' then rest else c :: rest) := by
  rw [IsMagnitude, ← readDecimal?_isSome_iff, readFloat]
  cases readDecimal? (if c = '-' ∨ c = '+' then rest else c :: rest) with
  | some digits => simp
  | none =>
    rw [← readNamed?_isSome_iff (decide (c = '-'))]
    cases readNamed? (decide (c = '-')) (if c = '-' ∨ c = '+' then rest else c :: rest) <;> simp

/-- A text is read as a float exactly if it is a float numeral. -/
theorem readFloat_ok_iff {cs : List Char} : (∃ x, readFloat cs = .ok x) ↔ IsFloat cs := by
  rw [isFloat_iff]
  cases cs with
  | nil =>
    constructor
    · rintro ⟨x, hx⟩
      cases hx
    · rintro ⟨sign, magnitude, -, hmagnitude, hnil⟩
      obtain ⟨c, rest, rfl, -⟩ := hmagnitude.exists_cons
      simp at hnil
  | cons c rest =>
    rw [readFloat_cons_ok_iff]
    constructor
    · intro h
      split at h
      · next hsign =>
        rcases hsign with rfl | rfl
        · exact ⟨_, rest, .minus, h, rfl⟩
        · exact ⟨_, rest, .plus, h, rfl⟩
      · exact ⟨[], _, .none, h, rfl⟩
    · rintro ⟨sign, magnitude, hsign, hmagnitude, heq⟩
      cases hsign with
      | none =>
        obtain ⟨d, ds, rfl, hminus, hplus⟩ := hmagnitude.exists_cons
        obtain ⟨rfl, rfl⟩ := List.cons.inj heq
        rwa [if_neg (not_or.mpr ⟨hminus, hplus⟩)]
      | plus =>
        obtain ⟨rfl, rfl⟩ := List.cons.inj heq
        rwa [if_pos (.inr rfl)]
      | minus =>
        obtain ⟨rfl, rfl⟩ := List.cons.inj heq
        rwa [if_pos (.inl rfl)]

end Testbed.Number

/-!
# Binary floating-point numbers

Floating-point numbers as exact data: a sign, a mantissa and a power of two, the two
infinities, and one not-a-number. Every operation rounds an exact quotient of natural numbers
once, to the nearest representable number and to the even mantissa at a tie, so results can be
computed and compared inside the logic.

- `Binary.round` rounds a quotient to a given width.
- `Binary.toSingle` rounds a double to the precision of a single.
- `Binary.ofDecimal` reads a decimal numeral, correctly rounded.
- `Binary.ofDecimalStepwise` reads one with a rounding at each step, the way a reader does that
  scales a machine-word significand by powers of ten.
-/

namespace Testbed.Number

-- A power is the one that numbers come with, also where the powers of monoids are in scope.
attribute [scoped instance (high)] instPowNat

/-- A number `± mantissa · 2 ^ exponent`, an infinity, or not a number. -/
inductive Binary where
  | finite (negative : Bool) (mantissa : Nat) (exponent : Int)
  | infinite (negative : Bool)
  | nan
deriving DecidableEq, Repr, Inhabited

/-- A floating-point width: how many bits a mantissa has, and between which exponents it may
    stand. -/
structure Width where
  precision : Nat
  lowest : Int
  highest : Int
deriving DecidableEq, Repr

/-- Double precision: mantissas of 53 bits. -/
def Width.double : Width := ⟨53, -1074, 971⟩

/-- Single precision: mantissas of 24 bits. -/
def Width.single : Width := ⟨24, -149, 104⟩

namespace Binary

/-! ## §1 Rounding a quotient -/

/-- The natural number nearest to `num / den`; of two equally near, the even one. -/
def roundEven (num den : Nat) : Nat :=
  let q := num / den
  let r := num % den
  if 2 * r < den then q else if den < 2 * r then q + 1 else q + q % 2

/-- The exponent of the greatest power of two that is at most `num / den`. -/
def floorLog (num den : Nat) : Int :=
  let k : Int := (num.log2 : Int) - (den.log2 : Int)
  if den * 2 ^ k.toNat ≤ num * 2 ^ (-k).toNat then k else k - 1

/-- The number of width `w` nearest to `num / den`. -/
def round (w : Width) (negative : Bool) (num den : Nat) : Binary :=
  if num = 0 then .finite negative 0 w.lowest
  else
    let e := max (floorLog num den - (w.precision - 1)) w.lowest
    let m := roundEven (num * 2 ^ (-e).toNat) (den * 2 ^ e.toNat)
    if m = 0 then .finite negative 0 w.lowest
    -- rounding has carried into the next power of two
    else if m = 2 ^ w.precision then
      if w.highest ≤ e then .infinite negative
      else .finite negative (2 ^ (w.precision - 1)) (e + 1)
    else if w.highest < e then .infinite negative
    else .finite negative m e

/-! ## §2 Doubles and singles -/

/-- Zero. -/
def zero : Binary := .finite false 0 Width.double.lowest

/-- Neither infinite nor not-a-number. -/
def isFinite : Binary → Bool
  | .finite .. => true
  | _ => false

/-- The same number with the other sign. -/
def negate : Binary → Binary
  | .finite n m e => .finite (!n) m e
  | .infinite n => .infinite (!n)
  | .nan => .nan

/-- The double nearest to a whole number. -/
def ofInt (n : Int) : Binary :=
  round .double (n < 0) n.natAbs 1

/-- The numerator of a finite magnitude. -/
def numerator (m : Nat) (e : Int) : Nat := m * 2 ^ e.toNat

/-- The denominator of a finite magnitude. -/
def denominator (e : Int) : Nat := 2 ^ (-e).toNat

/-- A finite number larger in magnitude than every single. -/
def exceedsSingle : Binary → Bool
  | .finite _ m e =>
    (2 ^ Width.single.precision - 1) * 2 ^ Width.single.highest.toNat * denominator e <
      numerator m e
  | _ => false

/-- The nearest single, held as a double. -/
def toSingle : Binary → Binary
  | .finite n m e =>
    match round .single n (numerator m e) (denominator e) with
    | .finite n m e => round .double n (numerator m e) (denominator e)
    | x => x
  | x => x

/-- The rounded product of two magnitudes. -/
def mul : Binary → Binary → Binary
  | .finite n₁ m₁ e₁, .finite n₂ m₂ e₂ =>
    round .double (n₁ != n₂) (numerator m₁ e₁ * numerator m₂ e₂)
      (denominator e₁ * denominator e₂)
  | .finite n₁ _ _, .infinite n₂ => .infinite (n₁ != n₂)
  | .infinite n₁, .finite n₂ _ _ => .infinite (n₁ != n₂)
  | _, _ => .nan

/-- The rounded quotient of two finite numbers, the second of them not zero. -/
def div : Binary → Binary → Binary
  | .finite n₁ m₁ e₁, .finite n₂ m₂ e₂ =>
    round .double (n₁ != n₂) (numerator m₁ e₁ * denominator e₂)
      (denominator e₁ * numerator m₂ e₂)
  | _, _ => .nan

/-! ## §3 Decimal numerals -/

/-- How many decimal digits a natural number has; zero has none. -/
def digitCount (n : Nat) : Nat :=
  if n = 0 then 0 else (Nat.toDigits 10 n).length

/-- The double nearest to `digits · 10 ^ exponent`. Numerals far outside the range are answered
    without computing their power of ten. -/
def ofDecimal (negative : Bool) (digits : Nat) (exponent : Int) : Binary :=
  if digits = 0 then .finite negative 0 Width.double.lowest
  else
    let magnitude := exponent + digitCount digits
    if 310 < magnitude then .infinite negative
    else if magnitude < -330 then .finite negative 0 Width.double.lowest
    else round .double negative (digits * 10 ^ exponent.toNat) (10 ^ (-exponent).toNat)

/-- The double nearest to a power of ten. -/
def powerOfTen (n : Nat) : Binary :=
  round .double false (10 ^ n) 1

/-- Scales `x` by `10 ^ exponent`, with one rounding per step: powers up to 308 are one
    step, smaller magnitudes are divided by `10 ^ 308` until they vanish or the rest is one step.
    `none` when the result would be infinite. -/
def scaleStepwise : Nat → Binary → Int → Option Binary
  | steps, x, exponent =>
    if exponent.natAbs ≤ 308 then
      if 0 ≤ exponent then
        match mul x (powerOfTen exponent.natAbs) with
        | .finite n m e => some (.finite n m e)
        | _ => none
      else some (div x (powerOfTen exponent.natAbs))
    else if x = zero then some x
    else if 0 ≤ exponent then none
    else match steps with
      | 0 => some zero
      | steps + 1 => scaleStepwise steps (div x (powerOfTen 308)) (exponent + 308)

/-- Reads `significand · 10 ^ exponent` with a rounding for the significand and one for each
    step of scaling; `none` when it is too large. -/
def ofDecimalStepwise (negative : Bool) (significand : Nat) (exponent : Int) : Option Binary :=
  (scaleStepwise exponent.natAbs (ofInt significand) exponent).map fun x =>
    if negative then x.negate else x

example : ofDecimal false 1 (-1) = .finite false 7205759403792794 (-56) := by decide +kernel
example : ofDecimal false 1 400 = .infinite false := by decide +kernel
example : ofDecimal true 5 (-324) = .finite true 1 (-1074) := by decide +kernel
example : (ofDecimal false 1 (-1)).toSingle = .finite false 7205759511166976 (-56) := by
  decide +kernel
example : ofDecimalStepwise false 1 (-400) = some zero := by decide +kernel
example : ofDecimalStepwise false 1 400 = none := by decide +kernel

end Binary

end Testbed.Number

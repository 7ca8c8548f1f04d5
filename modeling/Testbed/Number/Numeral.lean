import Testbed.Number.Binary

/-!
# Numerals

Reading the text of a number, with the reason when there is none. An integer numeral is an
optional sign and ASCII digits and is checked against its bounds digit by digit, so of a wrong
digit and an overflow the earlier one is the reason. A float numeral is decimal, or an infinity
or `nan` in any case.
-/

namespace Testbed.Number

/-- Why a text is no numeral of the wanted kind. -/
inductive NumeralFault where
  | emptyInteger
  | badDigit
  | tooLarge
  | tooSmall
  | emptyFloat
  | badFloat
  | notBool
deriving DecidableEq, Repr

/-- The wording of a fault. -/
def NumeralFault.message : NumeralFault → String
  | .emptyInteger => "cannot parse integer from empty string"
  | .badDigit => "invalid digit found in string"
  | .tooLarge => "number too large to fit in target type"
  | .tooSmall => "number too small to fit in target type"
  | .emptyFloat => "cannot parse float from empty string"
  | .badFloat => "invalid float literal"
  | .notBool => "provided string was not \x60true\x60 or \x60false\x60"

/-- The value of an ASCII digit. -/
def digitValue? (c : Char) : Option Nat :=
  if c.isDigit then some (c.toNat - '0'.toNat) else none

/-- The value of a hexadecimal digit. -/
def hexValue? (c : Char) : Option Nat :=
  if c.isDigit then some (c.toNat - '0'.toNat)
  else if 'a' ≤ c ∧ c ≤ 'f' then some (c.toNat - 'a'.toNat + 10)
  else if 'A' ≤ c ∧ c ≤ 'F' then some (c.toNat - 'A'.toNat + 10)
  else none

/-- The value of digits of a base up to sixteen; `none` where there are none, or one is no digit
    of that base. -/
def digitsIn? (base : Nat) (cs : List Char) : Option Nat :=
  if cs = [] then none
  else
    cs.foldlM (fun value c => do
      let d ← hexValue? c
      if d < base then some (value * base + d) else none) 0

/-! ## §1 Integers -/

/-- Reads digits onto a value that may not rise above `high`. -/
def readUp (high : Int) : Int → List Char → Except NumeralFault Int
  | value, [] => .ok value
  | value, c :: cs =>
    match digitValue? c with
    | none => .error .badDigit
    | some d =>
      let value := value * 10 + d
      if high < value then .error .tooLarge else readUp high value cs

/-- Reads digits onto a value that may not fall below `low`. -/
def readDown (low : Int) : Int → List Char → Except NumeralFault Int
  | value, [] => .ok value
  | value, c :: cs =>
    match digitValue? c with
    | none => .error .badDigit
    | some d =>
      let value := value * 10 - d
      if value < low then .error .tooSmall else readDown low value cs

/-- Reads an integer between `low` and `high`. A minus sign is a sign only where there are
    negative numbers. -/
def readInt (low high : Int) (cs : List Char) : Except NumeralFault Int :=
  match cs with
  | [] => .error .emptyInteger
  | ['+'] => .error .badDigit
  | ['-'] => .error .badDigit
  | '+' :: rest => readUp high 0 rest
  | '-' :: rest => if low < 0 then readDown low 0 rest else .error .badDigit
  | _ => readUp high 0 cs

/-! ## §2 Floats -/

/-- The digits in front of a text and what follows them. -/
def spanDigits (cs : List Char) : List Char × List Char :=
  cs.span Char.isDigit

/-- The natural number that a run of digits denotes. -/
def digitsValue (cs : List Char) : Nat :=
  cs.foldl (fun value c => value * 10 + (digitValue? c).getD 0) 0

/-- The exponent part of a numeral: nothing, or `e`, an optional sign and digits. -/
def readExponent? : List Char → Option Int
  | [] => some 0
  | c :: cs =>
    if c = 'e' ∨ c = 'E' then
      let (negative, cs) := match cs with
        | '-' :: cs => (true, cs)
        | '+' :: cs => (false, cs)
        | cs => (false, cs)
      if cs ≠ [] ∧ cs.all Char.isDigit then
        let n : Int := digitsValue cs
        some (if negative then -n else n)
      else none
    else none

/-- An unsigned decimal numeral as its digits and the power of ten of the last one. -/
def readDecimal? (cs : List Char) : Option (Nat × Int) :=
  let (whole, rest) := spanDigits cs
  let (fraction, rest) := match rest with
    | '.' :: rest => spanDigits rest
    | rest => ([], rest)
  if whole = [] ∧ fraction = [] then none
  else
    (readExponent? rest).map fun e =>
      (digitsValue (whole ++ fraction), e - fraction.length)

/-- The names of the numbers that are not finite, in any case. -/
def readNamed? (negative : Bool) (cs : List Char) : Option Binary :=
  let name := cs.map Char.toLower
  if name = "inf".toList ∨ name = "infinity".toList then some (.infinite negative)
  else if name = "nan".toList then some .nan
  else none

/-- Reads a float, rounded to the nearest double. -/
def readFloat (cs : List Char) : Except NumeralFault Binary :=
  match cs with
  | [] => .error .emptyFloat
  | c :: rest =>
    let negative := c = '-'
    let body := if c = '-' ∨ c = '+' then rest else cs
    match readDecimal? body with
    | some (digits, exponent) => .ok (Binary.ofDecimal negative digits exponent)
    | none =>
      match readNamed? negative body with
      | some x => .ok x
      | none => .error .badFloat

/-! ## §3 Truth values -/

/-- Reads `true` or `false`. -/
def readBool (s : String) : Except NumeralFault Bool :=
  if s = "true" then .ok true else if s = "false" then .ok false else .error .notBool

end Testbed.Number

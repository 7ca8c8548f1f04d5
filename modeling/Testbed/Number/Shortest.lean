import Testbed.Number.Binary

/-!
# The shortest decimal text of a double

Among the decimals that read back as a given double, the text shows one with the fewest digits,
and of those the one nearest to the double. The search tries one digit, two digits, and so on; at
each count only the two neighbours of the double on that decimal grid can lie nearest.

- `shortest` gives the digits and the place of the decimal point.
- `Layout` says how digits and point become text; `Layout.scientific` turns to an exponent for
  very large and very small numbers, `Layout.positional` never does.
-/

namespace Testbed.Number

/-! ## §1 Digits -/

/-- Decimal digits with the place of the point: the number `0.d₁d₂… · 10 ^ point`. -/
structure Digits where
  digits : List Char
  point : Int
deriving DecidableEq, Repr

namespace Binary

/-- Compares `d · 10 ^ k` with `s · 2 ^ e`. -/
def comparePowers (d : Nat) (k : Int) (s : Nat) (e : Int) : Ordering :=
  compare (d * 10 ^ k.toNat * 2 ^ (-e).toNat) (s * 2 ^ e.toNat * 10 ^ (-k).toNat)

/-- Whether the decimal `d · 10 ^ k` reads back as the double `m · 2 ^ e`: it lies between the
    midpoints to the two neighbours, the midpoints themselves counting where `m` is even. Below
    the least normalized mantissa the neighbour is only half as far away. -/
def readsBack (m : Nat) (e : Int) (d : Nat) (k : Int) : Bool :=
  -- in quarters of a unit the midpoints are whole numbers
  let lower := if m = 2 ^ (52 : Nat) ∧ Width.double.lowest < e then 4 * m - 1 else 4 * m - 2
  let low := comparePowers d k lower (e - 2)
  let high := comparePowers d k (4 * m + 2) (e - 2)
  if m % 2 = 0 then low != .lt && high != .gt else low == .gt && high == .lt

/-- The place of the decimal point of `num / den`: the least `p` with `num / den < 10 ^ p`. -/
def pointOf (num den : Nat) : Int :=
  if den ≤ num then digitCount (num / den)
  else 1 - (digitCount ((den - 1) / num) : Int)

/-- The decimal with `count` digits that reads back as `m · 2 ^ e` and lies nearest to it, as
    a whole number of units `10 ^ (point - count)`. -/
def decimalOf? (m : Nat) (e : Int) (point : Int) (count : Nat) : Option Nat :=
  let k : Int := point - count
  let num := numerator m e * 10 ^ (-k).toNat
  let den := denominator e * 10 ^ k.toNat
  let d := num / den
  match readsBack m e d k, readsBack m e (d + 1) k with
  -- both neighbours read back: the nearer one, and of two equally near the even one
  | true, true => some (roundEven num den)
  | true, false => some d
  | false, true => some (d + 1)
  | false, false => none

/-- Tries `count` digits and then more, up to `rest` more. -/
def searchDecimal (m : Nat) (e : Int) (point : Int) (count : Nat) : Nat → Nat × Int
  | 0 => ((decimalOf? m e point count).getD 0, point - count)
  | rest + 1 =>
    match decimalOf? m e point count with
    | some d => (d, point - count)
    | none => searchDecimal m e point (count + 1) rest

/-- Digits without the zeros at their end; the digits of zero are none. -/
def significant (d : Nat) : List Char :=
  ((Nat.toDigits 10 d).reverse.dropWhile (· = '0')).reverse

/-- The fewest digits that read back as the double `m · 2 ^ e`. -/
def shortest (m : Nat) (e : Int) : Digits :=
  if m = 0 then ⟨[], 1⟩
  else
    let (d, k) := searchDecimal m e (pointOf (numerator m e) (denominator e)) 1 16
    ⟨significant d, k + digitCount d⟩

/-! ## §2 Layouts -/

/-- How digits become text. Numbers `d.ddd · 10 ^ n` with `low ≤ n < high` are written without an
    exponent; `fraction` says whether these always show a point. -/
structure Layout where
  low : Option Int
  high : Option Int
  fraction : Bool

/-- The layout of data: an exponent from `1e+16` on and from `1e-6` down, otherwise a point. -/
def Layout.scientific : Layout := ⟨some (-5), some 16, true⟩

/-- The layout of messages: never an exponent, a point only where digits follow it. -/
def Layout.positional : Layout := ⟨none, none, false⟩

/-- Digits around the decimal point, filled up with zeros. -/
def positionalText (fraction : Bool) (x : Digits) : List Char :=
  let count : Int := x.digits.length
  if x.point ≤ 0 then
    "0.".toList ++ List.replicate (-x.point).toNat '0' ++ x.digits
  else if count ≤ x.point then
    x.digits ++ List.replicate (x.point - count).toNat '0' ++ if fraction then ".0".toList else []
  else
    x.digits.take x.point.toNat ++ '.' :: x.digits.drop x.point.toNat

/-- One digit, the others behind a point, and the exponent with its sign. -/
def exponentText (x : Digits) : List Char :=
  let n := x.point - 1
  let others := match x.digits.drop 1 with
    | [] => []
    | ds => '.' :: ds
  x.digits.take 1 ++ others ++ 'e' :: (if n < 0 then '-' else '+') :: Nat.toDigits 10 n.natAbs

/-- The text of digits in a layout. -/
def Layout.text (l : Layout) (x : Digits) : List Char :=
  let n := x.point - 1
  if l.low.all (· ≤ n) && l.high.all (n < ·) then positionalText l.fraction x
  else exponentText x

/-- The text of a finite number in a layout. -/
def Layout.ofFinite (l : Layout) (negative : Bool) (m : Nat) (e : Int) : String :=
  let sign := if negative then ['-'] else []
  String.ofList (sign ++ l.text (shortest m e))

/-- The text of a number as data; the numbers that are not finite have none. -/
def dataText? : Binary → Option String
  | .finite n m e => some (Layout.scientific.ofFinite n m e)
  | _ => none

/-- The text of a number in a message. -/
def messageText : Binary → String
  | .finite n m e => Layout.positional.ofFinite n m e
  | .infinite false => "inf"
  | .infinite true => "-inf"
  | .nan => "NaN"

end Binary

end Testbed.Number

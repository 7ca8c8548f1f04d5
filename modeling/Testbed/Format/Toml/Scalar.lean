import Testbed.Data
import Testbed.Format.Toml.Text

/-!
# Numbers, dates and times of TOML

The values that are written without quotes. Single underscores may stand between the digits of a
number. A date, a time, or both are one-entry maps that hold a normalised text.
-/

namespace Testbed.Toml

open Number

/-! ## §1 Numbers -/

/-- Digits behind another digit, each of which an underscore may stand before, and what follows
    them. -/
def moreDigits (isDigit : Char → Bool) : List Char → List Char × List Char
  | [] => ([], [])
  | '_' :: d :: cs =>
    if isDigit d then
      let (ds, rest) := moreDigits isDigit cs
      (d :: ds, rest)
    else ([], '_' :: d :: cs)
  | c :: cs =>
    if isDigit c then
      let (ds, rest) := moreDigits isDigit cs
      (c :: ds, rest)
    else ([], c :: cs)

/-- Digits with single underscores between them, and what follows them. -/
def digits (isDigit : Char → Bool) : List Char → List Char × List Char
  | [] => ([], [])
  | c :: cs =>
    if isDigit c then
      let (ds, rest) := moreDigits isDigit cs
      (c :: ds, rest)
    else ([], c :: cs)

/-- A sign in front of a text, and whether it is a minus. -/
def sign : List Char → Bool × List Char
  | '-' :: cs => (true, cs)
  | '+' :: cs => (false, cs)
  | cs => (false, cs)

/-- The digits of a whole number, of which the first is no zero unless it is the only one, and what
    follows them. -/
def whole? (cs : List Char) : Option (List Char × List Char) :=
  match cs with
  | '0' :: rest => some (['0'], rest)
  | _ =>
    let (ds, rest) := digits Char.isDigit cs
    if ds = [] then none else some (ds, rest)

/-- A point and digits behind it, if they are there. -/
def fraction? : List Char → Option (List Char × List Char)
  | '.' :: cs =>
    let (ds, rest) := digits Char.isDigit cs
    if ds = [] then none else some (ds, rest)
  | _ => none

/-- The exponent of a float, if it is there. -/
def exponent? : List Char → Option (Int × List Char)
  | c :: cs =>
    if c = 'e' ∨ c = 'E' then
      let (negative, cs) := sign cs
      let (ds, rest) := digits Char.isDigit cs
      let n : Int := digitsValue ds
      if ds = [] then none else some (if negative then -n else n, rest)
    else none
  | [] => none

/-- A finite float: a whole number with a fraction, an exponent, or both. One that is too large has
    to be negative. -/
def decimal? (negative : Bool) (cs : List Char) : Option (Data × List Char) := do
  let (ds, rest) ← whole? cs
  let fraction := fraction? rest
  let rest := (fraction.map (·.2)).getD rest
  let exponent := exponent? rest
  if fraction.isNone ∧ exponent.isNone then none
  else
    let fs := (fraction.map (·.1)).getD []
    let e := (exponent.map (·.1)).getD 0
    let rest := (exponent.map (·.2)).getD rest
    let x := Binary.ofDecimal negative (digitsValue (ds ++ fs)) (e - fs.length)
    -- only on the positive side a value too large is refused
    if x.isFinite then some (.float x, rest)
    else if negative then some (.null, rest)
    else none

/-- A float without a number: an infinity, or `nan`. Data has null for it. -/
def named? : List Char → Option (Data × List Char)
  | 'i' :: 'n' :: 'f' :: rest => some (.null, rest)
  | 'n' :: 'a' :: 'n' :: rest => some (.null, rest)
  | _ => none

/-- The integers that can be written. -/
def isInteger (n : Int) : Bool :=
  -(2 ^ (63 : Nat)) ≤ n && n < 2 ^ (63 : Nat)

/-- An integer of a base, behind the letters that say the base. -/
def based? (base : Nat) (cs : List Char) : Option (Data × List Char) := do
  let (ds, rest) := digits (fun c => (hexValue? c).any (· < base)) cs
  let n ← digitsIn? base ds
  if isInteger n then some (.int n, rest) else none

/-- An integer, and what follows it. -/
def integer? (cs : List Char) : Option (Data × List Char) :=
  match cs with
  | '0' :: 'x' :: cs => based? 16 cs
  | '0' :: 'o' :: cs => based? 8 cs
  | '0' :: 'b' :: cs => based? 2 cs
  | _ => do
    let (negative, cs) := sign cs
    let (ds, rest) ← whole? cs
    let magnitude : Int := digitsValue ds
    let n := if negative then -magnitude else magnitude
    if isInteger n then some (.int n, rest) else none

/-- A number, and what follows it. -/
def number? (cs : List Char) : Option (Data × List Char) :=
  let (negative, body) := sign cs
  decimal? negative body <|> named? body <|> integer? cs

/-! ## §2 Dates and times -/

/-- The number of exactly `count` digits between two bounds. -/
def fixed? (count low high : Nat) (cs : List Char) : Option (Nat × List Char) :=
  let ds := cs.take count
  let n := digitsValue ds
  if ds.length = count ∧ ds.all Char.isDigit ∧ low ≤ n ∧ n ≤ high then some (n, cs.drop count)
  else none

/-- What follows a character. -/
def expect? (c : Char) : List Char → Option (List Char)
  | d :: cs => if c = d then some cs else none
  | [] => none

/-- A number with at least `count` digits. -/
def padded (count n : Nat) : String :=
  let ds := Nat.toDigits 10 n
  String.ofList (List.replicate (count - ds.length) '0' ++ ds)

/-- How many days a month has. -/
def daysIn (year month : Nat) : Nat :=
  let leap := year % 4 = 0 ∧ (year % 100 ≠ 0 ∨ year % 400 = 0)
  if month = 2 then (if leap then 29 else 28)
  else if month = 4 ∨ month = 6 ∨ month = 9 ∨ month = 11 then 30
  else 31

/-- A date as text, and what follows it. -/
def date? (cs : List Char) : Option (String × List Char) := do
  let (year, cs) ← fixed? 4 0 9999 cs
  let (month, cs) ← fixed? 2 1 12 (← expect? '-' cs)
  let (day, cs) ← fixed? 2 1 31 (← expect? '-' cs)
  if day ≤ daysIn year month then
    some (padded 4 year ++ "-" ++ padded 2 month ++ "-" ++ padded 2 day, cs)
  else none

/-- The fraction of a second as text: nine digits at most, and no zeros at the end. -/
def secondFraction (cs : List Char) : String × List Char :=
  match cs with
  | '.' :: rest =>
    let (ds, after) := spanDigits rest
    if ds = [] then ("", cs)
    else
      let kept := ((ds.take 9).reverse.dropWhile (· = '0')).reverse
      (if kept = [] then "" else "." ++ String.ofList kept, after)
  | _ => ("", cs)

/-- A time as text, and what follows it. -/
def time? (cs : List Char) : Option (String × List Char) := do
  let (hour, cs) ← fixed? 2 0 23 cs
  let (minute, cs) ← fixed? 2 0 59 (← expect? ':' cs)
  let (second, cs) ← fixed? 2 0 60 (← expect? ':' cs)
  let (fraction, cs) := secondFraction cs
  some (padded 2 hour ++ ":" ++ padded 2 minute ++ ":" ++ padded 2 second ++ fraction, cs)

/-- The distance from universal time as text, and what follows it. No distance is written with a
    plus. -/
def offset? (cs : List Char) : Option (String × List Char) :=
  match cs with
  | 'Z' :: rest => some ("Z", rest)
  | 'z' :: rest => some ("Z", rest)
  | '+' :: rest => distance "+" rest
  | '-' :: rest => distance "-" rest
  | _ => none
where
  /-- Hours and minutes. -/
  distance (sign : String) (cs : List Char) : Option (String × List Char) := do
    let (hours, cs) ← fixed? 2 0 23 cs
    let (minutes, cs) ← fixed? 2 0 59 (← expect? ':' cs)
    let sign := if hours = 0 ∧ minutes = 0 then "+" else sign
    some (sign ++ padded 2 hours ++ ":" ++ padded 2 minutes, cs)

/-- The time of a day and the distance from universal time behind a date, if they are there. -/
def timeOfDay? : List Char → Option (String × List Char)
  | c :: cs =>
    if c = 'T' ∨ c = 't' ∨ c = ' ' then do
      let (time, rest) ← time? cs
      match offset? rest with
      | some (offset, rest) => some ("T" ++ time ++ offset, rest)
      | none => some ("T" ++ time, rest)
    else none
  | [] => none

/-- The key under which data holds a date or a time. -/
def momentKey : String := "$__toml_private_datetime"

/-- A date, a time, or both, and what follows. -/
def moment? (cs : List Char) : Option (Data × List Char) := do
  let (text, rest) ←
    match date? cs with
    | some (date, rest) =>
      match timeOfDay? rest with
      | some (time, rest) => some (date ++ time, rest)
      | none => some (date, rest)
    | none => time? cs
  some (.map [(momentKey, .text text)], rest)

/-! ## §3 Values without quotes -/

/-- A truth value, and what follows it. -/
def bool? : List Char → Option (Data × List Char)
  | 't' :: 'r' :: 'u' :: 'e' :: rest => some (.bool true, rest)
  | 'f' :: 'a' :: 'l' :: 's' :: 'e' :: rest => some (.bool false, rest)
  | _ => none

/-- A value without quotes, and what follows it. -/
def scalar? (cs : List Char) : Option (Data × List Char) :=
  bool? cs <|> moment? cs <|> number? cs

end Testbed.Toml

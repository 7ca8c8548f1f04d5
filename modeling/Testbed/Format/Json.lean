import Testbed.Data
import Testbed.Number.Numeral

/-!
# JSON

Reading JSON text as data and writing data as JSON text.

Reading follows the JSON grammar, with these decisions. An integer token is an integer where it
fits, and `-0` and every other number is a float; a float keeps the leading digits that fit a
machine word and is scaled by its power of ten step by step; a number too large for a double is
refused. A text may hold no bare control character and no lone surrogate. Containers may be nested
to a given depth. Of two members with one key the later counts.
-/

namespace Testbed.Json

open Number

/-- The greatest significand that fits a machine word. -/
def wordMax : Nat := 2 ^ (64 : Nat) - 1

/-- How deep containers of a document may be nested. -/
def documentDepth : Nat := 127

/-! ## §1 Tokens -/

/-- The characters allowed between tokens. -/
def isSpace (c : Char) : Bool :=
  c = ' ' || c = '\n' || c = '\t' || c = '\r'

/-- Drops the space in front. -/
def skip (cs : List Char) : List Char :=
  cs.dropWhile isSpace

/-- What follows an expected word. -/
def expect? : List Char → List Char → Option (List Char)
  | [], cs => some cs
  | w :: ws, c :: cs => if w = c then expect? ws cs else none
  | _ :: _, [] => none

/-- Four hexadecimal digits. -/
def hex4? : List Char → Option (Nat × List Char)
  | a :: b :: c :: d :: rest => do
    let a ← hexValue? a
    let b ← hexValue? b
    let c ← hexValue? c
    let d ← hexValue? d
    some (((a * 16 + b) * 16 + c) * 16 + d, rest)
  | _ => none

/-- The character of an escape after `\u`; a leading surrogate takes the escape after it. -/
def unicodeEscape? (cs : List Char) : Option (Char × List Char) := do
  let (high, rest) ← hex4? cs
  if 0xDC00 ≤ high ∧ high ≤ 0xDFFF then none
  else if 0xD800 ≤ high ∧ high ≤ 0xDBFF then
    match rest with
    | '\\' :: 'u' :: rest =>
      let (low, rest) ← hex4? rest
      if 0xDC00 ≤ low ∧ low ≤ 0xDFFF then
        some (Char.ofNat (0x10000 + (high - 0xD800) * 0x400 + (low - 0xDC00)), rest)
      else none
    | _ => none
  else some (Char.ofNat high, rest)

/-- The character of a one-letter escape. -/
def letterEscape? : Char → Option Char
  | '"' => some '"'
  | '\\' => some '\\'
  | '/' => some '/'
  | 'b' => some '\x08'
  | 'f' => some '\x0c'
  | 'n' => some '\n'
  | 'r' => some '\r'
  | 't' => some '\t'
  | _ => none

/-- The characters of a text up to its closing quote. `fuel` bounds the characters read. -/
def textBody? : Nat → List Char → Option (List Char × List Char)
  | 0, _ => none
  | _ + 1, [] => none
  | _ + 1, '"' :: rest => some ([], rest)
  | fuel + 1, '\\' :: 'u' :: rest => do
    let (c, rest) ← unicodeEscape? rest
    let (cs, rest) ← textBody? fuel rest
    some (c :: cs, rest)
  | fuel + 1, '\\' :: e :: rest => do
    let c ← letterEscape? e
    let (cs, rest) ← textBody? fuel rest
    some (c :: cs, rest)
  | fuel + 1, c :: rest =>
    if c.toNat < 0x20 ∨ c = '\\' then none
    else do
      let (cs, rest) ← textBody? fuel rest
      some (c :: cs, rest)

/-! ## §2 Numbers -/

/-- Leading digits that fit a machine word, and how many digits were left out. -/
def wholeDigits (ds : List Char) : Nat × Nat :=
  ds.foldl (fun (significand, dropped) c =>
    let next := significand * 10 + (digitValue? c).getD 0
    if dropped = 0 ∧ next ≤ wordMax then (next, 0) else (significand, dropped + 1)) (0, 0)

/-- Takes digits of the fraction into the significand while they fit; gives the significand and
    how many were taken. -/
def fractionDigits : Nat → List Char → Nat × Nat
  | significand, [] => (significand, 0)
  | significand, c :: cs =>
    let next := significand * 10 + (digitValue? c).getD 0
    if next ≤ wordMax then
      let (significand, taken) := fractionDigits next cs
      (significand, taken + 1)
    else (significand, 0)

/-- An exponent part, if there is one: its value and what follows; `none` where it is broken. -/
def exponentPart? (cs : List Char) : Option (Option Int × List Char) :=
  match cs with
  | c :: rest =>
    if c = 'e' ∨ c = 'E' then
      let (negative, rest) := match rest with
        | '-' :: rest => (true, rest)
        | '+' :: rest => (false, rest)
        | rest => (false, rest)
      let (ds, rest) := spanDigits rest
      if ds = [] then none
      else
        let n : Int := digitsValue ds
        some (some (if negative then -n else n), rest)
    else some (none, cs)
  | [] => some (none, [])

/-- An integer token as data: an integer where it fits, otherwise the nearest double. Minus zero
    is a float. -/
def integerData (negative : Bool) (significand : Nat) : Data :=
  if !negative then .int significand
  else if significand = 0 ∨ 2 ^ (63 : Nat) < significand then
    .float (Binary.ofInt significand).negate
  else .int (-significand)

/-- A number token after its sign. -/
def number? (negative : Bool) (cs : List Char) : Option (Data × List Char) :=
  let (ds, rest) := spanDigits cs
  match ds with
  | [] => none
  | '0' :: _ :: _ => none
  | _ => do
    let (whole, dropped) := wholeDigits ds
    let fraction := match rest with
      | '.' :: rest => some (spanDigits rest)
      | _ => none
    if fraction.any (·.1.isEmpty) then none
    else
      let rest := (fraction.map (·.2)).getD rest
      let (significand, taken) := fractionDigits whole ((fraction.map (·.1)).getD [])
      let (exponent, rest) ← exponentPart? rest
      if fraction.isNone ∧ exponent.isNone ∧ dropped = 0 then
        some (integerData negative significand, rest)
      else do
        let x ← Binary.ofDecimalStepwise negative significand
          (exponent.getD 0 + dropped - taken)
        some (.float x, rest)

/-! ## §3 Values -/

mutual
/-- One value and what follows it. `fuel` bounds the steps, `depth` the containers that may still
    be opened. -/
def value? : Nat → Nat → List Char → Option (Data × List Char)
  | 0, _, _ => none
  | fuel + 1, depth, cs =>
    match skip cs with
    | 'n' :: rest => (expect? "ull".toList rest).map (Data.null, ·)
    | 't' :: rest => (expect? "rue".toList rest).map (Data.bool true, ·)
    | 'f' :: rest => (expect? "alse".toList rest).map (Data.bool false, ·)
    | '"' :: rest => (textBody? (rest.length + 1) rest).map fun (s, rest) =>
        (.text (String.ofList s), rest)
    | '-' :: rest => number? true rest
    | '[' :: rest =>
      match depth with
      | 0 => none
      | depth + 1 =>
        match skip rest with
        | ']' :: rest => some (.list [], rest)
        | rest => (items? fuel depth rest).map fun (xs, rest) => (.list xs, rest)
    | '{' :: rest =>
      match depth with
      | 0 => none
      | depth + 1 =>
        match skip rest with
        | '}' :: rest => some (.map [], rest)
        | rest => (members? fuel depth rest).map fun (es, rest) => (.map (Keyed.ofList es), rest)
    | rest => number? false rest
/-- The items of a list up to its closing bracket. -/
def items? : Nat → Nat → List Char → Option (List Data × List Char)
  | 0, _, _ => none
  | fuel + 1, depth, cs => do
    let (x, rest) ← value? fuel depth cs
    match skip rest with
    | ',' :: rest => (items? fuel depth rest).map fun (xs, rest) => (x :: xs, rest)
    | ']' :: rest => some ([x], rest)
    | _ => none
/-- The members of a map up to its closing brace. -/
def members? : Nat → Nat → List Char → Option (List (String × Data) × List Char)
  | 0, _, _ => none
  | fuel + 1, depth, cs =>
    match skip cs with
    | '"' :: rest => do
      let (key, rest) ← textBody? (rest.length + 1) rest
      match skip rest with
      | ':' :: rest => do
        let (x, rest) ← value? fuel depth rest
        let e := (String.ofList key, x)
        match skip rest with
        | ',' :: rest => (members? fuel depth rest).map fun (es, rest) => (e :: es, rest)
        | '}' :: rest => some ([e], rest)
        | _ => none
      | _ => none
    | _ => none
end

/-- Reads a JSON text whose containers are nested at most `depth` deep. -/
def read? (depth : Nat) (cs : List Char) : Option Data := do
  let (x, rest) ← value? (cs.length + 1) depth cs
  if (skip rest).isEmpty then some x else none

/-! ## §4 Writing -/

/-- A hexadecimal digit. -/
def hexDigit (n : Nat) : Char :=
  if n < 10 then Char.ofNat ('0'.toNat + n) else Char.ofNat ('a'.toNat + (n - 10))

/-- A character inside a JSON text. -/
def escaped (c : Char) : List Char :=
  if c = '"' then ['\\', '"']
  else if c = '\\' then ['\\', '\\']
  else if c = '\n' then ['\\', 'n']
  else if c = '\r' then ['\\', 'r']
  else if c = '\t' then ['\\', 't']
  else if c = '\x08' then ['\\', 'b']
  else if c = '\x0c' then ['\\', 'f']
  else if c.toNat < 0x20 then
    ['\\', 'u', '0', '0', hexDigit (c.toNat / 16), hexDigit (c.toNat % 16)]
  else [c]

/-- A quoted text. -/
def quoted (s : String) : String :=
  String.ofList ('"' :: s.toList.flatMap escaped ++ ['"'])

mutual
/-- Data as compact JSON text; floats that are not finite are null. -/
def render : Data → String
  | .null => "null"
  | .bool b => if b then "true" else "false"
  | .int n => toString n
  | .float x => (x.dataText?).getD "null"
  | .text s => quoted s
  | .list xs => "[" ++ ",".intercalate (renderItems xs) ++ "]"
  | .map es => "\x7b" ++ ",".intercalate (renderMembers es) ++ "\x7d"
/-- The texts of a list's items. -/
def renderItems : List Data → List String
  | [] => []
  | x :: xs => render x :: renderItems xs
/-- The texts of a map's members. -/
def renderMembers : List (String × Data) → List String
  | [] => []
  | (k, x) :: es => (quoted k ++ ":" ++ render x) :: renderMembers es
end

end Testbed.Json

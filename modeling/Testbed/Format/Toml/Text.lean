import Testbed.Number.Numeral

/-!
# Space, texts and keys of TOML

The characters between the parts of a TOML text, its four kinds of quoted texts, and its keys. A
line ends with a line feed, which a carriage return may stand before; no other control character
but the tab stands for itself anywhere.
-/

namespace Testbed.Toml

/-! ## §1 Space -/

/-- The blanks of a line. -/
def isWhite (c : Char) : Bool :=
  c = ' ' || c = '\t'

/-- The characters that stand for themselves in comments and quoted texts. -/
def isPlain (c : Char) : Bool :=
  c = '\t' || (0x20 ≤ c.toNat && c.toNat ≤ 0x7E) || 0x80 ≤ c.toNat

/-- Drops the blanks in front. -/
def skipWhite (cs : List Char) : List Char :=
  cs.dropWhile isWhite

/-- What follows a line break. -/
def newline? : List Char → Option (List Char)
  | '\n' :: cs => some cs
  | '\r' :: '\n' :: cs => some cs
  | _ => none

/-- Drops the comment in front, if there is one. -/
def skipComment : List Char → List Char
  | '#' :: cs => cs.dropWhile isPlain
  | cs => cs

/-- What follows the end of a line, in front of which blanks and a comment may stand. The text may
    end there too. -/
def finishLine? (cs : List Char) : Option (List Char) :=
  match skipComment (skipWhite cs) with
  | [] => some []
  | rest => newline? rest

/-- Drops blanks, comments and line breaks. A comment has to end with its line. -/
def skipLines? : Nat → List Char → Option (List Char)
  | 0, _ => none
  | fuel + 1, cs =>
    match skipWhite cs with
    | [] => some []
    | c :: rest =>
      if c = '#' ∨ c = '\n' ∨ c = '\r' then do skipLines? fuel (← finishLine? (c :: rest))
      else some (c :: rest)

/-! ## §2 Quoted texts -/

/-- The character of an escape behind its backslash, and what follows it. -/
def escape? : List Char → Option (Char × List Char)
  | 'b' :: cs => some ('\x08', cs)
  | 't' :: cs => some ('\t', cs)
  | 'n' :: cs => some ('\n', cs)
  | 'f' :: cs => some ('\x0c', cs)
  | 'r' :: cs => some ('\r', cs)
  | '"' :: cs => some ('"', cs)
  | '\\' :: cs => some ('\\', cs)
  | 'u' :: cs => numbered? 4 cs
  | 'U' :: cs => numbered? 8 cs
  | _ => none
where
  /-- A character given by hexadecimal digits. -/
  numbered? (count : Nat) (cs : List Char) : Option (Char × List Char) := do
    let digits := cs.take count
    if digits.length < count then none
    else
      let n ← Number.digitsIn? 16 digits
      if n.isValidChar then some (Char.ofNat n, cs.drop count) else none

/-- A text of one line with escapes, behind its opening quote. -/
def basic? : Nat → List Char → Option (List Char × List Char)
  | 0, _ => none
  | _ + 1, [] => none
  | fuel + 1, c :: cs =>
    if c = '"' then some ([], cs)
    else if c = '\\' then do
      let (e, cs) ← escape? cs
      let (text, rest) ← basic? fuel cs
      some (e :: text, rest)
    else if isPlain c then do
      let (text, rest) ← basic? fuel cs
      some (c :: text, rest)
    else none

/-- A text of one line without escapes, behind its opening quote. -/
def literal? : List Char → Option (List Char × List Char)
  | [] => none
  | c :: cs =>
    if c = '\'' then some ([], cs)
    else if isPlain c then (literal? cs).map fun (text, rest) => (c :: text, rest)
    else none

/-- Up to two quotes right behind three others: they belong to the text, and the last three of
    them all close it. -/
def closing (quote : Char) (cs : List Char) : List Char × List Char :=
  let extra := ((cs.take 2).takeWhile (· = quote)).length
  (List.replicate extra quote, cs.drop extra)

/-- What follows a backslash at the end of a line: the line break and all blanks and line breaks
    after it are dropped. -/
def joinedLine? (cs : List Char) : Option (List Char) := do
  let rest ← newline? (skipWhite cs)
  skipBlank (rest.length + 1) rest
where
  /-- Drops blanks and line breaks. -/
  skipBlank : Nat → List Char → Option (List Char)
    | 0, _ => none
    | fuel + 1, cs =>
      let cs := skipWhite cs
      match newline? cs with
      | some rest => skipBlank fuel rest
      | none => some cs

/-- A text of several lines, behind its opening quotes. -/
def lines? (quote : Char) : Nat → List Char → Option (List Char × List Char)
  | 0, _ => none
  | _ + 1, [] => none
  | fuel + 1, c :: cs =>
    -- one or two quotes are part of the text, three of them end it
    if c = quote ∧ cs.take 2 = [quote, quote] then some (closing quote (cs.drop 2))
    else if c = '\\' ∧ quote = '"' then
      match joinedLine? cs with
      | some rest => lines? quote fuel rest
      | none => do
        let (e, cs) ← escape? cs
        let (text, rest) ← lines? quote fuel cs
        some (e :: text, rest)
    else do
      let (d, cs) ← match newline? (c :: cs) with
        | some rest => some ('\n', rest)
        | none => if isPlain c then some (c, cs) else none
      let (text, rest) ← lines? quote fuel cs
      some (d :: text, rest)

/-- A quoted text of one line, and what follows it. -/
def lineText? : List Char → Option (List Char × List Char)
  | '"' :: cs => basic? (cs.length + 1) cs
  | '\'' :: cs => literal? cs
  | _ => none

/-- A quoted text of one line or of several, and what follows it. A line break right behind the
    opening quotes does not count. -/
def text? (cs : List Char) : Option (List Char × List Char) :=
  match cs with
  | '"' :: '"' :: '"' :: rest => several '"' rest
  | '\'' :: '\'' :: '\'' :: rest => several '\'' rest
  | _ => lineText? cs
where
  /-- A text of several lines, behind its opening quotes. -/
  several (quote : Char) (cs : List Char) : Option (List Char × List Char) :=
    let cs := (newline? cs).getD cs
    lines? quote (cs.length + 1) cs

/-! ## §3 Keys -/

/-- The characters of a key without quotes. -/
def isBare (c : Char) : Bool :=
  c.isAlphanum || c = '-' || c = '_'

/-- One part of a key, and what follows it. -/
def keyPart? (cs : List Char) : Option (String × List Char) :=
  match cs.head? with
  | some '"' => (lineText? cs).map fun (text, rest) => (String.ofList text, rest)
  | some '\'' => (lineText? cs).map fun (text, rest) => (String.ofList text, rest)
  | _ =>
    let (part, rest) := cs.span isBare
    if part = [] then none else some (String.ofList part, rest)

/-- The parts of a key, which points stand between, and what follows them. -/
def keyParts? : Nat → List Char → Option (List String × List Char)
  | 0, _ => none
  | fuel + 1, cs => do
    let (part, rest) ← keyPart? (skipWhite cs)
    match skipWhite rest with
    | '.' :: rest => do
      let (parts, rest) ← keyParts? fuel rest
      some (part :: parts, rest)
    | rest => some ([part], rest)

/-- How many parts a key may have at most. -/
def keyLength : Nat := 79

/-- A key, and what follows it. -/
def key? (cs : List Char) : Option (List String × List Char) := do
  let (parts, rest) ← keyParts? (cs.length + 1) cs
  if parts.length ≤ keyLength then some (parts, rest) else none

end Testbed.Toml

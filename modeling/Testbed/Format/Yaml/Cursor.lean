/-!
# Places in a YAML text

Which characters end a line or separate words, and a cursor: what is left of a text, and where in
the text that is. A carriage return with a line feed behind it is one line break. Every line break
is read as a line feed, but for the line and paragraph separators, which stand for themselves.
-/

namespace Testbed.Yaml

/-! ## §1 Classes of characters -/

/-- The characters that a text may hold. -/
def isAllowed (c : Char) : Bool :=
  let n := c.toNat
  n = 0x09 || n = 0x0A || n = 0x0D || (0x20 ≤ n && n ≤ 0x7E) || n = 0x85 ||
    (0xA0 ≤ n && n ≤ 0xD7FF) || (0xE000 ≤ n && n ≤ 0xFFFD) || 0x10000 ≤ n

/-- The characters that end a line. -/
def isBreak (c : Char) : Bool :=
  c = '\n' || c = '\r' || c = '\u0085' || c = '\u2028' || c = '\u2029'

/-- The characters that separate words of a line. -/
def isWhite (c : Char) : Bool :=
  c = ' ' || c = '\t'

/-- The characters of names. -/
def isWord (c : Char) : Bool :=
  c.isAlphanum || c = '_' || c = '-'

/-- What a line break is read as. -/
def readBreak (c : Char) : Char :=
  if c = '\u2028' || c = '\u2029' then c else '\n'

/-- Whether a text starts with a separator, or is at its end. -/
def atGap : List Char → Bool
  | [] => true
  | c :: _ => isWhite c || isBreak c

/-- Whether a text starts with a line break, or is at its end. -/
def atLineEnd : List Char → Bool
  | [] => true
  | c :: _ => isBreak c

/-- Whether a text starts with the mark that begins a document or the one that ends it. -/
def atMarker : List Char → Bool
  | '-' :: '-' :: '-' :: cs => atGap cs
  | '.' :: '.' :: '.' :: cs => atGap cs
  | _ => false

/-! ## §2 Places -/

/-- A place in a text: how many characters come before it, in which line and column it is. -/
structure Place where
  index : Nat
  line : Nat
  column : Nat
deriving DecidableEq, Repr

namespace Place

/-- The start of a text. -/
def start : Place := ⟨0, 0, 0⟩

/-- The place `n` characters on in the line. -/
def skip (p : Place) (n : Nat) : Place :=
  ⟨p.index + n, p.line, p.column + n⟩

/-- The place behind a character of the line. -/
def next (p : Place) : Place := p.skip 1

/-- The place behind a line break of `n` characters. -/
def nextLine (p : Place) (n : Nat) : Place :=
  ⟨p.index + n, p.line + 1, 0⟩

end Place

/-- What is left of a text, and where it starts. -/
structure Cursor where
  rest : List Char
  place : Place
deriving DecidableEq, Repr

namespace Cursor

/-- The cursor `n` characters on in the line. -/
def skip (c : Cursor) (n : Nat) : Cursor :=
  ⟨c.rest.drop n, c.place.skip n⟩

/-- The cursor at what follows in the line. -/
def goTo (c : Cursor) (rest : List Char) : Cursor :=
  ⟨rest, c.place.skip (c.rest.length - rest.length)⟩

/-- The cursor behind the characters that have a property, none of which is a line break. -/
def skipWhile (p : Char → Bool) (c : Cursor) : Cursor :=
  c.skip (c.rest.takeWhile p).length

/-- The line break at a cursor as it is read, if there is one, and the cursor behind it. -/
def takeBreak (c : Cursor) : Option Char × Cursor :=
  match c.rest with
  | '\r' :: '\n' :: rest => (some '\n', ⟨rest, c.place.nextLine 2⟩)
  | d :: rest =>
    if isBreak d then (some (readBreak d), ⟨rest, c.place.nextLine 1⟩) else (none, c)
  | [] => (none, c)

/-- The cursor behind blanks, a comment and the line break after them; `none` where something else
    is left in the line. -/
def finishLine? (c : Cursor) : Option Cursor :=
  let c := c.skipWhile isWhite
  let c := if c.rest.head? = some '#' then c.skipWhile (!isBreak ·) else c
  if atLineEnd c.rest then some c.takeBreak.2 else none

end Cursor

end Testbed.Yaml

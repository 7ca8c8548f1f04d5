import Testbed.Format.Yaml.Cursor
import Testbed.Number.Numeral
import Testbed.Text.Utf8

/-!
# Anchors, tags and directives of a YAML text

The parts of a line that name a node, give it a type, or say something about a document.
-/

namespace Testbed.Yaml

/-! ## §1 Anchors -/

/-- The name of an anchor or an alias and what follows it. -/
def anchorName? (cs : List Char) : Option (String × List Char) :=
  let (name, rest) := cs.span isWord
  let ended := atGap rest || rest.head?.any ("?:,]\x7d%@\x60".toList.contains ·)
  if name ≠ [] ∧ ended then some (String.ofList name, rest) else none

/-! ## §2 Tags -/

/-- A tag as it is written: a handle, which stands for a beginning, and what comes after it. The
    handle is empty where the tag is written in full. -/
structure Tag where
  handle : String
  suffix : String
deriving DecidableEq, Repr

/-- The characters of a tag. Commas and brackets are among them only where the tag is enclosed. -/
def isTagCharacter (enclosed : Bool) (c : Char) : Bool :=
  isWord c || ";/?:@&=+$.!~*'()".toList.contains c || (enclosed && (c = ',' || c = '[' || c = ']'))

/-- A percent sign and two hexadecimal digits. -/
def octet? : List Char → Option (Nat × List Char)
  | '%' :: a :: b :: cs => (Number.digitsIn? 16 [a, b]).map (·, cs)
  | _ => none

/-- Octets that continue a character. -/
def moreOctets? : Nat → List Char → Option (List Nat × List Char)
  | 0, cs => some ([], cs)
  | count + 1, cs => do
    let (n, cs) ← octet? cs
    if n / 64 = 2 then
      let (ns, cs) ← moreOctets? count cs
      some (n :: ns, cs)
    else none

/-- A character given by the octets of its UTF-8 form. -/
def octetCharacter? (cs : List Char) : Option (Char × List Char) := do
  let (first, cs) ← octet? cs
  let count ←
    if first < 0x80 then some 0
    else if first / 32 = 6 then some 1
    else if first / 16 = 14 then some 2
    else if first / 8 = 30 then some 3
    else none
  let (more, cs) ← moreOctets? count cs
  match Text.decodeUtf8 ((first :: more).map UInt8.ofNat) with
  | .ok [c] => some (c, cs)
  | _ => some ('\ufffd', cs)

/-- The characters of a tag in front of a text, and what follows them. -/
def tagText? (enclosed : Bool) : Nat → List Char → Option (List Char × List Char)
  | 0, _ => none
  | _ + 1, [] => some ([], [])
  | fuel + 1, c :: cs =>
    if c = '%' then do
      let (d, rest) ← octetCharacter? (c :: cs)
      let (text, rest) ← tagText? enclosed fuel rest
      some (d :: text, rest)
    else if isTagCharacter enclosed c then do
      let (text, rest) ← tagText? enclosed fuel cs
      some (c :: text, rest)
    else some ([], c :: cs)

/-- The handle in front of a text: an exclamation mark, word characters, and a second exclamation
    mark if there is one. -/
def tagHandle? : List Char → Option (List Char × List Char)
  | '!' :: cs =>
    let (name, rest) := cs.span isWord
    match rest with
    | '!' :: rest => some ('!' :: name ++ ['!'], rest)
    | _ => some ('!' :: name, rest)
  | _ => none

/-- Reads a tag, whose first exclamation mark is the first character, and gives what follows. -/
def tag? (flow : Bool) (cs : List Char) : Option (Tag × List Char) := do
  let (tag, rest) ←
    match cs with
    | '!' :: '<' :: rest => do
      let (text, rest) ← tagText? true (rest.length + 1) rest
      match text, rest with
      | [], _ => none
      | _, '>' :: rest => some (⟨"", String.ofList text⟩, rest)
      | _, _ => none
    | _ => do
      let (handle, rest) ← tagHandle? cs
      let (text, rest) ← tagText? false (rest.length + 1) rest
      if 1 < handle.length ∧ handle.getLast? = some '!' then
        if text = [] then none else some (⟨String.ofList handle, String.ofList text⟩, rest)
      else
        let suffix := handle.drop 1 ++ text
        if suffix = [] then some (⟨"", "!"⟩, rest)
        else some (⟨"!", String.ofList suffix⟩, rest)
  if atGap rest ∨ (flow ∧ rest.head? = some ',') then some (tag, rest) else none

/-! ## §3 Directives -/

/-- What a directive says. -/
inductive Directive where
  | version (major minor : Nat)
  | handle (name beginning : String)
deriving DecidableEq, Repr

/-- A number of a version and what follows it. It has at most nine digits. -/
def versionNumber? (cs : List Char) : Option (Nat × List Char) :=
  let (digits, rest) := Number.spanDigits cs
  if digits = [] ∨ 9 < digits.length then none else some (Number.digitsValue digits, rest)

/-- Reads a directive behind its percent sign and gives what follows. -/
def directive? (cs : List Char) : Option (Directive × List Char) := do
  let (name, rest) := cs.span isWord
  if !atGap rest then none
  else
    let rest := rest.dropWhile isWhite
    match String.ofList name with
    | "YAML" => do
      let (major, rest) ← versionNumber? rest
      match rest with
      | '.' :: rest => do
        let (minor, rest) ← versionNumber? rest
        some (.version major minor, rest)
      | _ => none
    | "TAG" => do
      let (handle, rest) ← tagHandle? rest
      if handle.length = 1 ∨ handle.getLast? = some '!' then
        if rest.head?.any isWhite then do
          let rest := rest.dropWhile isWhite
          let (text, rest) ← tagText? true (rest.length + 1) rest
          if text ≠ [] ∧ atGap rest then
            some (.handle (String.ofList handle) (String.ofList text), rest)
          else none
        else none
      else none
    | _ => none

end Testbed.Yaml

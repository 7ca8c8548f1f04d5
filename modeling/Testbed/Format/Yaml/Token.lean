import Testbed.Format.Yaml.Property
import Testbed.Format.Yaml.Scalar

/-!
# Tokens of a YAML text

`Token.ofText?` cuts a text into tokens. The indentation of the block style becomes tokens of its
own, which open and close blocks. Whether a node is the key of a map shows only at the colon
behind it, so a place where a key could start is kept in mind, and its token, with the one that
opens the map, is put in when the colon is there. Such a key has to be on one line and is no
longer than 1024 characters.
-/

namespace Testbed.Yaml

/-- The tokens of a text. -/
inductive Token where
  | directive (d : Directive)
  | documentStart
  | documentEnd
  | openBlockSequence
  | openBlockMapping
  | closeBlock
  | openSequence
  | closeSequence
  | openMapping
  | closeMapping
  | blockEntry
  | flowEntry
  | key
  | value
  | alias (name : String)
  | anchor (name : String)
  | tag (t : Tag)
  | scalar (text : String) (plain : Bool)
deriving DecidableEq, Repr

/-! ## §1 The state of a scan -/

/-- A place where a key may have started: the number that its token would have, and whether
    nothing but a key can stand there. -/
structure SimpleKey where
  place : Place
  number : Nat
  required : Bool
deriving Repr

/-- Whether a key that started at a place can no longer end here. -/
def SimpleKey.isStale (k : SimpleKey) (here : Place) : Bool :=
  k.place.line < here.line || k.place.index + 1024 < here.index

/-- The state of a scan: the tokens so far, newest first, the keys that may have started, of the
    innermost flow collection first, whether a key may start here, and the columns of the open
    blocks, innermost first. -/
structure Scan where
  cursor : Cursor
  tokens : List Token
  key : Option SimpleKey
  outerKeys : List (Option SimpleKey)
  keyAllowed : Bool
  indents : List Nat
deriving Repr

namespace Scan

/-- The start of a text. -/
def start (cs : List Char) : Scan :=
  ⟨⟨cs, .start⟩, [], none, [], true, []⟩

/-- Whether the scan is inside of a flow collection. -/
def inFlow (s : Scan) : Bool := !s.outerKeys.isEmpty

/-- The column of the scan. -/
def column (s : Scan) : Nat := s.cursor.place.column

/-- The column that lines of a node inside of the innermost block must reach. -/
def innerColumn (s : Scan) : Nat :=
  match s.indents with
  | [] => 0
  | column :: _ => column + 1

/-- Adds a token. -/
def emit (t : Token) (s : Scan) : Scan :=
  { s with tokens := t :: s.tokens }

/-- Adds a token that gets a number which another token has by now. -/
def emitAt (number : Nat) (t : Token) (s : Scan) : Scan :=
  { s with tokens := s.tokens.insertIdx (s.tokens.length - number) t }

/-- Moves the cursor. -/
def moveTo (c : Cursor) (s : Scan) : Scan :=
  { s with cursor := c }

/-- Adds a token of `n` characters. -/
def take (n : Nat) (t : Token) (s : Scan) : Scan :=
  (s.moveTo (s.cursor.skip n)).emit t

/-- Says whether a key may start next. -/
def allowKey (allowed : Bool) (s : Scan) : Scan :=
  { s with keyAllowed := allowed }

/-! ## §2 Keys -/

/-- Forgets a key that can no longer end. -/
def refreshKey? (here : Place) : Option SimpleKey → Option (Option SimpleKey)
  | none => some none
  | some k => if k.isStale here then (if k.required then none else some none) else some (some k)

/-- Forgets the keys that can no longer end. -/
def refresh? (s : Scan) : Option Scan := do
  let here := s.cursor.place
  let key ← refreshKey? here s.key
  let outerKeys ← s.outerKeys.mapM (refreshKey? here)
  some { s with key := key, outerKeys := outerKeys }

/-- Gives up the key that may have started last. -/
def dropKey? (s : Scan) : Option Scan :=
  if s.key.any (·.required) then none else some { s with key := none }

/-- KeepsState in mind that a key may start here. -/
def startKey? (s : Scan) : Option Scan :=
  if s.keyAllowed then do
    -- at the column of an open block mapping only a key can stand
    let required := !s.inFlow && s.indents.head? = some s.column
    let s ← s.dropKey?
    some { s with key := some ⟨s.cursor.place, s.tokens.length, required⟩ }
  else some s

/-! ## §3 Blocks -/

/-- Opens a block at a column that is deeper than the innermost block; `number` is the number of
    its token. -/
def openBlock (column number : Nat) (t : Token) (s : Scan) : Scan :=
  if !s.inFlow && s.indents.all (· < column) then
    { s.emitAt number t with indents := column :: s.indents }
  else s

/-- Closes the blocks whose column does not pass a test. -/
def closeBlocks (stays : Nat → Bool) (s : Scan) : Scan :=
  if s.inFlow then s
  else
    let closed := (s.indents.takeWhile (!stays ·)).length
    { s with
      tokens := List.replicate closed .closeBlock ++ s.tokens
      indents := s.indents.drop closed }

/-! ## §4 The space between tokens -/

/-- The cursor at the next token, and whether a key may start there. -/
def toToken (inFlow : Bool) : Bool → Bool → List Char → Place → Cursor × Bool
  | _, allowed, [], p => (⟨[], p⟩, allowed)
  | _, allowed, '\r' :: '\n' :: cs, p =>
    toToken inFlow false (allowed || !inFlow) cs (p.nextLine 2)
  | inComment, allowed, c :: cs, p =>
    if isBreak c then toToken inFlow false (allowed || !inFlow) cs (p.nextLine 1)
    else if inComment then toToken inFlow true allowed cs p.next
    else if c = '#' then toToken inFlow true allowed cs p.next
    else if c = ' ' || (c = '\t' && (inFlow || !allowed)) || (c = '\ufeff' && p.column = 0) then
      toToken inFlow false allowed cs p.next
    else (⟨c :: cs, p⟩, allowed)

/-- Goes on to the next token. -/
def skipSpace (s : Scan) : Scan :=
  let (cursor, allowed) := toToken s.inFlow false s.keyAllowed s.cursor.rest s.cursor.place
  { s with cursor := cursor, keyAllowed := allowed }

/-! ## §5 Tokens -/

/-- Starts what stands between documents: all blocks end. -/
def leaveDocument? (s : Scan) : Option Scan :=
  ((s.closeBlocks fun _ => false).dropKey?).map (allowKey false)

/-- Reads a directive. -/
def directive? (s : Scan) : Option Scan := do
  let s ← s.leaveDocument?
  let c := s.cursor.skip 1
  let (d, rest) ← Yaml.directive? c.rest
  let c ← (c.goTo rest).finishLine?
  some ((s.moveTo c).emit (.directive d))

/-- Reads the mark at the start or the end of a document. -/
def marker? (t : Token) (s : Scan) : Option Scan :=
  s.leaveDocument?.map (take 3 t)

/-- Opens a flow collection. -/
def openFlow? (t : Token) (s : Scan) : Option Scan := do
  let s ← s.startKey?
  some ({ s with key := none, outerKeys := s.key :: s.outerKeys }.allowKey true |>.take 1 t)

/-- Closes a flow collection. -/
def closeFlow? (t : Token) (s : Scan) : Option Scan := do
  let s ← s.dropKey?
  -- a bracket outside of any collection is left to the grammar to refuse
  let s := match s.outerKeys with
    | [] => s
    | key :: outer => { s with key := key, outerKeys := outer }
  some (s.allowKey false |>.take 1 t)

/-- Reads a comma of a flow collection. -/
def flowEntry? (s : Scan) : Option Scan := do
  let s ← s.dropKey?
  some (s.allowKey true |>.take 1 .flowEntry)

/-- Opens the block of an entry that starts with an indicator; in the block style it may start
    only where a key may. -/
def startEntry? (t : Token) (s : Scan) : Option Scan :=
  if s.inFlow then some s
  else if s.keyAllowed then some (s.openBlock s.column s.tokens.length t)
  else none

/-- Reads the hyphen of an entry of a list. -/
def blockEntry? (s : Scan) : Option Scan := do
  let s ← s.startEntry? .openBlockSequence
  let s ← s.dropKey?
  some (s.allowKey true |>.take 1 .blockEntry)

/-- Reads the question mark of a key. -/
def explicitKey? (s : Scan) : Option Scan := do
  let s ← s.startEntry? .openBlockMapping
  let s ← s.dropKey?
  some (s.allowKey (!s.inFlow) |>.take 1 .key)

/-- Reads the colon of a value. What came before it is a key if a key may have started there. -/
def value? (s : Scan) : Option Scan :=
  match s.key with
  | some k =>
    -- the mapping opens in front of the key that was put in before it
    let s := (s.emitAt k.number .key).openBlock k.place.column k.number .openBlockMapping
    some ({ s with key := none }.allowKey false |>.take 1 .value)
  | none => do
    let s ← s.startEntry? .openBlockMapping
    some (s.allowKey (!s.inFlow) |>.take 1 .value)

/-- Reads the name of an anchor or an alias. -/
def named? (token : String → Token) (s : Scan) : Option Scan := do
  let s ← s.startKey?
  let c := s.cursor.skip 1
  let (name, rest) ← anchorName? c.rest
  some ((s.moveTo (c.goTo rest)).allowKey false |>.emit (token name))

/-- Reads a tag. -/
def tag? (s : Scan) : Option Scan := do
  let s ← s.startKey?
  let (t, rest) ← Yaml.tag? s.inFlow s.cursor.rest
  some ((s.moveTo (s.cursor.goTo rest)).allowKey false |>.emit (.tag t))

/-- Reads a block scalar. -/
def blockScalar? (literal : Bool) (s : Scan) : Option Scan := do
  let s ← s.dropKey?
  let (text, c) ← block? literal s.innerColumn (s.cursor.skip 1)
  some ((s.moveTo c).allowKey true |>.emit (.scalar (String.ofList text) false))

/-- Reads a scalar in quotes. -/
def quotedScalar? (q : Quote) (s : Scan) : Option Scan := do
  let s ← s.startKey?
  let c := s.cursor.skip 1
  let (text, c) ← quoted? q (c.rest.length + 1) c .empty
  some ((s.moveTo c).allowKey false |>.emit (.scalar (String.ofList text) false))

/-- Reads a plain scalar. Where it ends with a line, a key may start behind it. -/
def plainScalar? (s : Scan) : Option Scan := do
  let s ← s.startKey?
  let (text, gap, c) ← plain? s.inFlow s.innerColumn s.cursor.rest s.cursor.place .empty
  some ((s.moveTo c).allowKey gap.hasBreak |>.emit (.scalar (String.ofList text) true))

/-- Reads the token that starts with `c`, which `cs` comes after. -/
def step? (c : Char) (cs : List Char) (s : Scan) : Option Scan :=
  if s.column = 0 ∧ c = '%' then s.directive?
  else if s.column = 0 ∧ atMarker (c :: cs) then
    s.marker? (if c = '-' then .documentStart else .documentEnd)
  else match c with
    | '[' => s.openFlow? .openSequence
    | '\x7b' => s.openFlow? .openMapping
    | ']' => s.closeFlow? .closeSequence
    | '\x7d' => s.closeFlow? .closeMapping
    | ',' => s.flowEntry?
    | '-' => if atGap cs then s.blockEntry? else s.plainScalar?
    | '?' => if s.inFlow || atGap cs then s.explicitKey? else s.plainScalar?
    | ':' => if s.inFlow || atGap cs then s.value? else s.plainScalar?
    | '*' => s.named? .alias
    | '&' => s.named? .anchor
    | '!' => s.tag?
    | '|' => if s.inFlow then none else s.blockScalar? true
    | '>' => if s.inFlow then none else s.blockScalar? false
    | '\'' => s.quotedScalar? .single
    | '"' => s.quotedScalar? .double
    | '%' => none
    | '@' => none
    | '\x60' => none
    | _ => if isWhite c then none else s.plainScalar?

/-- Reads the tokens that are left, each of which takes a character at least. -/
def run? : Nat → Scan → Option (List Token)
  | 0, _ => none
  | fuel + 1, s => do
    let s ← s.skipSpace.refresh?
    -- a token ends every block that stands to the right of it
    let s := s.closeBlocks (· ≤ s.column)
    match s.cursor.rest with
    | [] => s.leaveDocument?.map (·.tokens.reverse)
    | c :: cs => run? fuel (← s.step? c cs)

end Scan

/-- The tokens of a text. -/
def Token.ofText? (cs : List Char) : Option (List Token) :=
  if cs.all isAllowed then (Scan.start cs).run? (cs.length + 1) else none

end Testbed.Yaml

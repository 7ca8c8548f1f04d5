import Testbed.Format.Yaml.Cursor
import Testbed.Number.Numeral

/-!
# The text of YAML scalars

A scalar is written in single or in double quotes, plainly, or as a block of lines. Where a scalar
goes over several lines its line breaks are folded: a single one is a space, and of several the
first is dropped. A literal block keeps its lines.
-/

namespace Testbed.Yaml

/-! ## §1 Folding -/

/-- What lies between two words of a scalar: blanks of one line, or line breaks. The first of the
    line breaks is `none` where a backslash escapes it. -/
inductive Gap where
  | whites (cs : List Char)
  | breaks (first : Option Char) (more : List Char)
deriving DecidableEq, Repr

namespace Gap

/-- No gap. -/
def empty : Gap := whites []

/-- A blank more. Blanks beside a line break do not count. -/
def addWhite (c : Char) : Gap → Gap
  | whites cs => whites (cs ++ [c])
  | breaks first more => breaks first more

/-- A line break more. -/
def addBreak (c : Char) : Gap → Gap
  | whites _ => breaks (some c) []
  | breaks first more => breaks first (more ++ [c])

/-- Whether a gap goes over a line's end. -/
def hasBreak : Gap → Bool
  | whites _ => false
  | breaks _ _ => true

/-- What a gap is read as. -/
def text : Gap → List Char
  | whites cs => cs
  | breaks (some '\n') [] => [' ']
  | breaks (some '\n') more => more
  | breaks first more => first.toList ++ more

end Gap

/-! ## §2 Quoted scalars -/

/-- The quotes. -/
inductive Quote where
  | single
  | double
deriving DecidableEq, Repr

/-- The character of a quote. -/
def Quote.mark : Quote → Char
  | .single => '\''
  | .double => '"'

/-- The character of an escape of one letter. -/
def letterEscape? : Char → Option Char
  | '0' => some '\x00'
  | 'a' => some '\x07'
  | 'b' => some '\x08'
  | 't' => some '\t'
  | '\t' => some '\t'
  | 'n' => some '\n'
  | 'v' => some '\x0b'
  | 'f' => some '\x0c'
  | 'r' => some '\r'
  | 'e' => some '\x1b'
  | ' ' => some ' '
  | '"' => some '"'
  | '/' => some '/'
  | '\\' => some '\\'
  | 'N' => some '\u0085'
  | '_' => some '\u00a0'
  | 'L' => some '\u2028'
  | 'P' => some '\u2029'
  | _ => none

/-- How many hexadecimal digits an escape by number has. -/
def escapeDigits? : Char → Option Nat
  | 'x' => some 2
  | 'u' => some 4
  | 'U' => some 8
  | _ => none

/-- The character of an escape, and how many characters the escape has after the backslash. -/
def escape? : List Char → Option (Char × Nat)
  | [] => none
  | e :: cs =>
    match letterEscape? e with
    | some c => some (c, 1)
    | none => do
      let count ← escapeDigits? e
      let digits := cs.take count
      if digits.length < count then none
      else
        let n ← Number.digitsIn? 16 digits
        if n.isValidChar then some (Char.ofNat n, count + 1) else none

/-- What stands at a place inside quotes that is no blank and no line break. -/
inductive Piece where
  | finish
  | letter (c : Char) (length : Nat)
  | joinedLine
deriving DecidableEq, Repr

/-- The piece at the start of a text. -/
def Quote.piece? (q : Quote) (c : Char) (cs : List Char) : Option Piece :=
  match q with
  | .single =>
    if c ≠ q.mark then some (.letter c 1)
    else if cs.head? = some q.mark then some (.letter c 2)
    else some .finish
  | .double =>
    if c = q.mark then some .finish
    else if c ≠ '\\' then some (.letter c 1)
    else if cs.head?.any isBreak then some .joinedLine
    else (escape? cs).map fun (e, length) => .letter e (length + 1)

/-- The text up to the closing quote, and the cursor behind the quote. No line of it may start
    with the mark of a document. -/
def quoted? (q : Quote) : Nat → Cursor → Gap → Option (List Char × Cursor)
  | 0, _, _ => none
  | fuel + 1, here, gap =>
    match here.rest with
    | [] => none
    | c :: cs =>
      if isWhite c then quoted? q fuel (here.skip 1) (gap.addWhite c)
      else match here.takeBreak with
        | (some b, after) => quoted? q fuel after (gap.addBreak b)
        | (none, _) =>
          -- column zero is reached only behind a line break
          if here.place.column = 0 ∧ atMarker here.rest then none
          else match q.piece? c cs with
            | none => none
            | some .finish => some (gap.text, here.skip 1)
            | some (.letter e length) => do
              let (text, after) ← quoted? q fuel (here.skip length) .empty
              some (gap.text ++ e :: text, after)
            | some .joinedLine => do
              let (text, after) ← quoted? q fuel (here.skip 1).takeBreak.2 (.breaks none [])
              some (gap.text ++ text, after)

/-! ## §3 Plain scalars -/

/-- The characters that group and separate in the flow style. -/
def isFlowMark (c : Char) : Bool :=
  c = ',' || c = '[' || c = ']' || c = '\x7b' || c = '\x7d'

/-- The text of a plain scalar, the gap behind it, and the cursor behind the gap. `indent` is the
    column that its lines must reach outside of the flow style. -/
def plain? (flow : Bool) (indent : Nat) :
    List Char → Place → Gap → Option (List Char × Gap × Cursor)
  | [], p, gap => some ([], gap, ⟨[], p⟩)
  | '\r' :: '\n' :: cs, p, gap => plain? flow indent cs (p.nextLine 2) (gap.addBreak '\n')
  | c :: cs, p, gap =>
    if isBreak c then plain? flow indent cs (p.nextLine 1) (gap.addBreak (readBreak c))
    else if isWhite c then
      -- a tab is no indentation
      if gap.hasBreak ∧ p.column < indent ∧ c = '\t' then none
      else plain? flow indent cs p.next (gap.addWhite c)
    else
      -- inside of a word neither the column nor a hash sign says anything
      let newWord := gap ≠ .empty
      if newWord ∧ !flow ∧ p.column < indent then some ([], gap, ⟨c :: cs, p⟩)
      else if newWord ∧ (c = '#' ∨ (p.column = 0 ∧ atMarker (c :: cs))) then
        some ([], gap, ⟨c :: cs, p⟩)
      else if flow ∧ c = ':' ∧ cs.head?.any (fun d => isFlowMark d || d = '?') then none
      else if (c = ':' ∧ atGap cs) ∨ (flow ∧ isFlowMark c) then some ([], gap, ⟨c :: cs, p⟩)
      else do
        let (text, rest) ← plain? flow indent cs p.next .empty
        some (gap.text ++ c :: text, rest)

/-! ## §4 Block scalars -/

/-- What becomes of the line breaks at the end of a block. -/
inductive Chomping where
  | strip
  | clip
  | keep
deriving DecidableEq, Repr

/-- The marks behind the one that starts a block: chomping, the depth of its lines if it is given,
    and how many characters the marks have. -/
def blockMarks? : List Char → Option (Chomping × Option Nat × Nat)
  | '+' :: cs => depthAfter .keep cs
  | '-' :: cs => depthAfter .strip cs
  | c :: cs =>
    if c = '0' then none
    else match Number.digitValue? c, cs with
      | some d, '+' :: _ => some (.keep, some d, 2)
      | some d, '-' :: _ => some (.strip, some d, 2)
      | some d, _ => some (.clip, some d, 1)
      | none, _ => some (.clip, none, 0)
  | [] => some (.clip, none, 0)
where
  /-- The depth behind the mark for chomping. -/
  depthAfter (chomping : Chomping) : List Char → Option (Chomping × Option Nat × Nat)
    | c :: _ =>
      if c = '0' then none
      else match Number.digitValue? c with
        | some d => some (chomping, some d, 2)
        | none => some (chomping, none, 1)
    | [] => some (chomping, none, 1)

/-- Skips the spaces of the indentation and empty lines: the deepest column that was reached, the
    line breaks, and the cursor at the next line's text. The indentation is unknown where `indent`
    is zero; a tab may not be in it. -/
def emptyLines? (indent : Nat) :
    List Char → Place → Nat → List Char → Option (Nat × List Char × Cursor)
  | [], p, deepest, breaks => some (max deepest p.column, breaks, ⟨[], p⟩)
  | '\r' :: '\n' :: cs, p, deepest, breaks =>
    emptyLines? indent cs (p.nextLine 2) (max deepest p.column) (breaks ++ ['\n'])
  | c :: cs, p, deepest, breaks =>
    let inside := indent = 0 ∨ p.column < indent
    if inside ∧ c = ' ' then emptyLines? indent cs p.next deepest breaks
    else if inside ∧ c = '\t' then none
    else if isBreak c then
      emptyLines? indent cs (p.nextLine 1) (max deepest p.column) (breaks ++ [readBreak c])
    else some (max deepest p.column, breaks, ⟨c :: cs, p⟩)

/-- What a block has come to: its text, the line break after its last line, the empty lines after
    that, and whether the last line started with a blank. -/
structure Block where
  text : List Char
  last : Option Char
  empty : List Char
  startsWhite : Bool
deriving Repr

/-- The line break after the last line as it is read in front of another line: in a folded block
    it is folded between two lines that start with no blank. -/
def Block.joint (b : Block) (literal startsWhite : Bool) : List Char :=
  if !literal ∧ b.last = some '\n' ∧ !b.startsWhite ∧ !startsWhite then
    if b.empty = [] then [' '] else []
  else b.last.toList

/-- Reads the lines of a block, which stand at column `indent`. -/
def blockLines? (literal : Bool) (indent : Nat) : Nat → Cursor → Block → Option (Block × Cursor)
  | 0, _, _ => none
  | fuel + 1, here, b =>
    match here.rest with
    | [] => some (b, here)
    | c :: _ =>
      if here.place.column ≠ indent then some (b, here)
      else do
        -- at the column of the block there is a line, which is not empty
        let line := here.rest.takeWhile (!isBreak ·)
        let (last, next) := (here.skip line.length).takeBreak
        let (_, empty, after) ← emptyLines? indent next.rest next.place 0 []
        let text := b.text ++ b.joint literal (isWhite c) ++ b.empty ++ line
        blockLines? literal indent fuel after ⟨text, last, empty, isWhite c⟩

/-- The text of a block scalar, and the cursor behind it. The cursor stands behind the mark that
    starts the block; `outer` is the column that its lines must reach at least. -/
def block? (literal : Bool) (outer : Nat) (here : Cursor) : Option (List Char × Cursor) := do
  let (chomping, depth, length) ← blockMarks? here.rest
  let first ← (here.skip length).finishLine?
  let given := match depth with
    | some d => (outer - 1) + d
    | none => 0
  let (deepest, empty, start) ← emptyLines? given first.rest first.place 0 []
  -- where no depth is given, the first line or a deeper empty one before it sets the depth
  let indent := if given = 0 then max deepest (max outer 1) else given
  let (b, after) ← blockLines? literal indent (start.rest.length + 1) start ⟨[], none, empty, false⟩
  let tail := match chomping with
    | .strip => []
    | .clip => b.last.toList
    | .keep => b.last.toList ++ b.empty
  some (b.text ++ tail, after)

end Testbed.Yaml

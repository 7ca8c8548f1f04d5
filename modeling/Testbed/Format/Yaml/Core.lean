import Testbed.Data
import Testbed.Format.Yaml.Node
import Testbed.Number.Numeral

/-!
# The core schema of YAML

What the nodes of a document are as data. A plain scalar is null, a truth value, an integer or a
float where it has the form of one, and every other scalar is a text. A key of a mapping is the
text of its scalar, and of two entries with one key the later counts. Tags of the core schema force
a kind on a scalar; a tag of the document's own is refused.
-/

namespace Testbed.Yaml

open Number

/-! ## §1 Scalars -/

/-- Null, if a text means that. -/
def null? (s : String) : Option Data :=
  if s ∈ ["null", "Null", "NULL", "~"] then some .null else none

/-- A truth value, if a text means one. -/
def bool? (s : String) : Option Data :=
  if s ∈ ["true", "True", "TRUE"] then some (.bool true)
  else if s ∈ ["false", "False", "FALSE"] then some (.bool false)
  else none

/-- What follows a sign in front of a text. -/
def unsigned : List Char → List Char
  | '+' :: cs => cs
  | '-' :: cs => cs
  | cs => cs

/-- Whether a text consists of digits and starts with a zero that is not all of it. Such a text is
    no number. -/
def hasLeadingZero (cs : List Char) : Bool :=
  match unsigned cs with
  | '0' :: d :: ds => (d :: ds).all Char.isDigit
  | _ => false

/-- The natural number that digits without a sign denote, in the base that their beginning says. -/
def magnitude? (cs : List Char) : Option Nat :=
  match cs with
  | '0' :: 'x' :: ds => digitsIn? 16 ds
  | '0' :: 'o' :: ds => digitsIn? 8 ds
  | '0' :: 'b' :: ds => digitsIn? 2 ds
  | _ => digitsIn? 10 cs

/-- The integer that a text denotes. -/
def integer? (cs : List Char) : Option Int :=
  if hasLeadingZero cs then none
  else match cs with
    | '+' :: ds => (magnitude? ds).map fun n => (n : Int)
    | '-' :: ds => (magnitude? ds).map fun n => -(n : Int)
    | ds => (magnitude? ds).map fun n => (n : Int)

/-- The integers that are refused where they are no integers of data. Still wider ones are read as
    floats if they can be. -/
def isWideInteger (n : Int) : Bool :=
  -(2 ^ (127 : Nat)) ≤ n && n < 2 ^ (128 : Nat)

/-- The float that a text denotes, if it is finite or named with a point. Of data only finite
    floats are numbers. -/
def float? (cs : List Char) : Option Data :=
  let body := match cs with
    | '+' :: cs => cs
    | cs => cs
  let named := (String.ofList body ∈ [".inf", ".Inf", ".INF"]) ∨
    String.ofList cs ∈ ["-.inf", "-.Inf", "-.INF", ".nan", ".NaN", ".NAN"]
  if named then some .null
  -- behind a plus there is no second sign
  else if body ≠ cs ∧ (body.head? = some '+' ∨ body.head? = some '-') then none
  else match readFloat body with
    | .ok x => if x.isFinite then some (.float x) else none
    | .error _ => none

/-- A text as an integer: nothing where it is none, and `some none` where it is refused. -/
def integerData? (cs : List Char) : Option (Option Data) :=
  match integer? cs with
  | none => none
  | some n =>
    if Data.isInteger n then some (some (.int n))
    else if isWideInteger n then some none
    else none

/-- A plain scalar without a tag. -/
def plainData? (s : String) : Option Data :=
  let cs := s.toList
  if s = "" then some .null
  else match null? s <|> bool? s with
    | some d => some d
    | none =>
      match integerData? cs with
      | some d => d
      | none =>
        -- what only looks like a number is a text
        if hasLeadingZero cs then some (.text s)
        else some ((float? cs).getD (.text s))

/-- A scalar. -/
def scalarData? (tag : Option String) (plain : Bool) (s : String) : Option Data :=
  match tag with
  | some "tag:yaml.org,2002:null" => null? s
  | some "tag:yaml.org,2002:bool" => bool? s
  | some "tag:yaml.org,2002:int" => (integerData? s.toList).join
  | some "tag:yaml.org,2002:float" => float? s.toList
  | some _ => some (.text s)
  | none => if plain then plainData? s else some (.text s)

/-! ## §2 Nodes -/

/-- How deep collections may be nested. -/
def nodeDepth : Nat := 128

mutual
/-- How many scalars, aliases, starts and ends of collections a node has. -/
def Node.size : Node → Nat
  | .alias _ => 1
  | .scalar _ _ _ => 1
  | .sequence _ items => itemsSize items + 2
  | .mapping _ entries => entriesSize entries + 2
/-- The sizes of nodes together. -/
def itemsSize : List Node → Nat
  | [] => 0
  | n :: ns => n.size + itemsSize ns
/-- The sizes of entries together. -/
def entriesSize : List (Node × Node) → Nat
  | [] => 0
  | (k, v) :: es => k.size + v.size + entriesSize es
end

/-- The tag of a node. -/
def Node.tag? : Node → Option String
  | .alias _ => none
  | .scalar tag _ _ => tag
  | .sequence tag _ => tag
  | .mapping tag _ => tag

/-- Whether a node has a tag of the document's own. -/
def Node.hasLocalTag (n : Node) : Bool :=
  n.tag?.any fun tag => tag.toList.head? = some '!'

/-- Reading of nodes, which counts down how many aliases may still be followed. -/
abbrev Resolver := StateT Nat Option

/-- The node that a node stands for. -/
def target (anchored : List (Nat × Node)) : Node → Resolver Node
  | .alias number => fun left =>
    match left, anchored.lookup number with
    | left + 1, some n => some (n, left)
    | _, _ => none
  | n => pure n

/-- The text of a key. -/
def keyText (anchored : List (Nat × Node)) (n : Node) : Resolver String := do
  match ← target anchored n with
  | .scalar _ _ text => pure text
  | _ => fun _ => none

/-- What a node is as data; `depth` is how many collections may still be opened. -/
def nodeData (anchored : List (Nat × Node)) : Nat → Node → Resolver Data
  | depth, n => do
    let n ← target anchored n
    if n.hasLocalTag then fun _ => none
    else match n, depth with
      | .scalar tag plain text, _ => fun left => (scalarData? tag plain text).map (·, left)
      | .sequence _ items, depth + 1 => .list <$> items.mapM (nodeData anchored depth)
      | .mapping _ entries, depth + 1 => do
        let es ← entries.mapM fun (k, v) => do
          let key ← keyText anchored k
          let d ← nodeData anchored depth v
          pure (key, d)
        pure (.map (Keyed.ofList es))
      | _, _ => fun _ => none

/-- What a document is as data. Aliases may be followed a hundred times for each part of it. -/
def Stream.data? (s : Stream) : Option Data :=
  ((nodeData s.anchored nodeDepth s.root).run (100 * s.root.size)).map (·.1)

end Testbed.Yaml

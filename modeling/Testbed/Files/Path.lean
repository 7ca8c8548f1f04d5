import Testbed.Text.Pieces

/-!
# Paths

A path is a text; its meaning is its list of components. Repeated slashes, slashes at the end
and the name `.` add no component, except that a path may start with `.`; the name `..` is kept.
Paths are compared, and put in order, component by component.
-/

namespace Testbed

/-- One component of a path. -/
inductive Component where
  | root
  | current
  | parent
  | name (name : String)
deriving DecidableEq, Repr

/-- The text of a path. -/
abbrev Path := String

namespace Path

/-! ## §1 Components -/

/-- Whether a path starts at the root. -/
def isAbsolute (p : Path) : Bool :=
  p.toList.head? = some '/'

/-- The texts between the slashes. -/
def segments (p : Path) : List String :=
  Text.pieces '/' p

/-- The component of a text between slashes, unless it adds none. -/
def component? (s : String) : Option Component :=
  if s = "" ∨ s = "." then none else if s = ".." then some .parent else some (.name s)

/-- The components of a path. -/
def components (p : Path) : List Component :=
  let start :=
    if isAbsolute p then [.root]
    else if (segments p).head? = some "." then [.current]
    else []
  start ++ (segments p).filterMap component?

/-- Whether two paths have the same components. -/
def same (p q : Path) : Bool :=
  components p = components q

/-- Whether the components of `q` begin those of `p`. -/
def startsWith (p q : Path) : Bool :=
  (components q).isPrefixOf (components p)

/-! ## §2 Order -/

/-- Root, current and parent come before names, and names are ordered as texts. -/
def componentLe : Component → Component → Bool
  | .name a, .name b => a ≤ b
  | .name _, _ => false
  | _, .name _ => true
  | .root, _ => true
  | .current, .root => false
  | .current, _ => true
  | .parent, .parent => true
  | .parent, _ => false

/-- The order of component lists: the first difference decides, and a beginning comes first. -/
def componentsLe : List Component → List Component → Bool
  | [], _ => true
  | _ :: _, [] => false
  | a :: as, b :: bs => if a = b then componentsLe as bs else componentLe a b

/-- The order of paths. -/
def le (p q : Path) : Bool :=
  componentsLe (components p) (components q)

/-- Paths in order. -/
def sorted (ps : List Path) : List Path :=
  ps.mergeSort le

/-! ## §3 Building paths -/

/-- `p` read from the directory `base`; an absolute path stands for itself. -/
def join (base p : Path) : Path :=
  if isAbsolute p then p
  else if base = "" ∨ base.toList.getLast? = some '/' then base ++ p
  else base ++ "/" ++ p

/-- Texts between slashes without those at the end that add no component. -/
def dropEmptyEnd (ss : List String) : List String :=
  (ss.reverse.dropWhile fun s => s = "" ∨ s = ".").reverse

/-- Segments as a path again; the root has a slash of its own. -/
def ofSegments (ss : List String) : Path :=
  if ss = [""] then "/" else "/".intercalate ss

/-- The path without its last component; `none` for the root and the empty path. -/
def parent? (p : Path) : Option Path :=
  match segments p with
  | [] => none
  | first :: rest =>
    match dropEmptyEnd rest with
    -- a single component stands in the empty path
    | [] => if first = "" then none else some ""
    | ss => some (ofSegments (first :: dropEmptyEnd ss.dropLast))

/-- The directory of a path; the root and the empty path count as being in the empty path. -/
def directory (p : Path) : Path :=
  (parent? p).getD ""

/-! ## §4 Names -/

/-- The last component, if it is a name. -/
def fileName? (p : Path) : Option String :=
  match (components p).getLast? with
  | some (.name s) => some s
  | _ => none

/-- A file name cut at its last dot; a dot in front does not count. -/
def cutExtension (name : String) : String × Option String :=
  match Text.cutFirstOf '.' name.toList.reverse with
  | some (after, before) =>
    if before.isEmpty then (name, none)
    else (String.ofList before.reverse, some (String.ofList after.reverse))
  | none => (name, none)

/-- The file name without its extension. -/
def stem? (p : Path) : Option String :=
  (fileName? p).map fun name => (cutExtension name).1

/-- The extension of the file name. -/
def extension? (p : Path) : Option String :=
  (fileName? p).bind fun name => (cutExtension name).2

end Path

end Testbed

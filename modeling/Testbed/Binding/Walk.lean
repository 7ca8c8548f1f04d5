import Testbed.Directives
import Testbed.Location
import Testbed.Document.Basic
import Testbed.Value.Basic
import Testbed.Text.Quoted

/-!
# Walks

The steps that binding is made of. A walk moves a location along the data and may fail; a walk
that fails keeps the location that it had come to. What a walk needs to know is its `Context`, and
the document it is in.
-/

namespace Testbed

/-- The functions that fill fields which are not bound by their shape alone. -/
inductive Factory where
  | actions
  | action
  | sandboxes
  | environments
deriving DecidableEq, Repr

namespace Factory

/-- The name of a factory. -/
def name : Factory → String
  | actions => "actions"
  | action => "action"
  | sandboxes => "sandboxes"
  | environments => "environments"

/-- All factories. -/
def all : List Factory := [actions, action, sandboxes, environments]

/-- The factory with a name. -/
def ofName? (s : String) : Option Factory :=
  all.find? (·.name = s)

end Factory

/-- Factories under the names that tags ask for them, in the order of these names. -/
structure Factories where
  entries : List (String × Factory)
deriving DecidableEq, Repr

namespace Factories

/-- No factories. -/
def empty : Factories := ⟨[]⟩

/-- The factories with `f` under a name. -/
def register (fs : Factories) (name : String) (f : Factory) : Factories :=
  ⟨Keyed.insert name f fs.entries⟩

/-- The factory under a name. -/
def get? (fs : Factories) (name : String) : Option Factory :=
  Keyed.get? name fs.entries

/-- Every factory under its own name. -/
def standard : Factories :=
  Factory.all.foldl (fun fs f => fs.register f.name f) empty

/-- The names in order, as text. -/
def text (fs : Factories) : String :=
  let names := ", ".intercalate (fs.entries.map fun (name, _) => Text.quotedText name)
  "Factories \x7b names: [" ++ names ++ "] \x7d"

end Factories

/-- What binding depends on besides the data: the files, the factories, and whether keys that
    name no field are refused. -/
structure Context where
  files : FileSystem
  factories : Factories
  strict : Bool

/-! ## §1 Steps -/

/-- A walk: it moves a location, and gives a result or an error. -/
abbrev Walk := EStateM Error Location

namespace Walk

variable {α : Type}

/-- Stops with a cause. -/
def fail (cause : Cause) : Walk α :=
  throw (.cause cause)

/-- Goes on with a result, or stops with its cause. -/
def lift : Except Cause α → Walk α
  | .ok x => pure x
  | .error cause => fail cause

/-- Adds the document and the location come to to an error of `w`. -/
def located (document : Path) (w : Walk α) : Walk α := fun location =>
  match w location with
  | .ok x reached => .ok x reached
  | .error e reached => .error (e.locate document reached.text) reached

/-- Walks the inside of a map. -/
def insideMap (w : Walk α) : Walk α := do
  modify Location.openMap
  let x ← w
  modify Location.close
  pure x

/-- Walks the inside of a list. -/
def insideList (w : Walk α) : Walk α := do
  modify Location.openList
  let x ← w
  modify Location.close
  pure x

end Walk

end Testbed

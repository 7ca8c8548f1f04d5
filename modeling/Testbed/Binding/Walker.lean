import Testbed.Binding.Bind

/-!
# Walkers

A walker binds documents one after the other. Between two walks it keeps its location: a walk that
succeeds ends where it began, and one that fails leaves the frames open that it had come to. The
document and the depth are those of the walk that is going on.
-/

namespace Testbed

/-- A walker: what it binds with, the document it is in, how deep it is, and where. -/
structure Walker where
  context : Context
  document : Path
  depth : Nat
  location : Location

namespace Walker

/-- A walker that has not been anywhere. -/
def fresh (context : Context) : Walker :=
  ⟨context, "", 0, .outside⟩

/-- Runs a walk at the walker's place; the walker moves to where the walk ends. -/
def run {α : Type} (w : Walker) (walk : Deeper → Path → Walk α) : Except Error α × Walker :=
  match walk (Deeper.level w.context (maxDepth - w.depth)) w.document w.location with
  | .ok x reached => (.ok x, { w with location := reached })
  | .error e reached => (.error e, { w with location := reached })

/-- Binds data by the shape of a value. -/
def assign (w : Walker) (data : Data) (target : Value) : Except Error Value × Walker :=
  w.run fun deeper document => deeper.assign document data target

/-- Binds a field according to directives. -/
def field (w : Walker) (d : Directives) (data : Data) (target : Value) :
    Except Error Value × Walker :=
  w.run fun deeper document => Binding.field w.context deeper document d data target

/-- Makes an action from an entry. -/
def action (w : Walker) (entry : Data) : Except Error Value × Walker :=
  w.run fun deeper document => deeper.action document entry

/-- Binds the record of a whole document. The walk starts outside of everything. -/
def config (w : Walker) (path : Path) (data : Data) (target : Value) :
    Except Error Value × Walker :=
  let start : Walker := { w with document := path, depth := 0, location := .outside }
  start.run fun deeper document =>
    match data with
    | .map es =>
      match target with
      | .record variant slots => do
        let filled ← Binding.recordInside w.context deeper document es slots
        pure (.record variant filled)
      | v => pure v
    | other => Walk.located document (Walk.fail (.notConfigMap other.kind))

end Walker

end Testbed

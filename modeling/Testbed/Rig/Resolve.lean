import Testbed.Binding.Walker
import Testbed.Rig.View
import Testbed.Value.Merge
import Testbed.Value.Overwrite
import Testbed.Value.Leaves

/-!
# Resolving a configuration

Documents are bound one after the other, each by a fresh walker into an empty configuration; the
configurations are merged in the order of the documents; and the result is overwritten. Overwrites
form a map from routes to texts that is gone through in no specified order: `resolve` takes them as
a list and applies them in the order of the list, so that what holds of every list holds of every
order.
-/

namespace Testbed.Rig

/-- The configuration that one document stands for. -/
def bindDocument (context : Context) (d : Document) : Except Error Value :=
  ((Walker.fresh context).config d.path (.map d.entries) Value.emptyConfig).1

/-- The configuration that documents and overwrites stand for together; the overwrites are applied
    in the order of the list. -/
def resolve (context : Context) (documents : List Document)
    (overwrites : List (String × String)) : Except Error Value := do
  let configs ← documents.mapM (bindDocument context)
  match Value.mergeAll? configs with
  | none => .error (.cause .nothingToMerge)
  | some config =>
    let a := Value.overwriteAll overwrites config
    match a.fault with
    | none => .ok a.value
    | some e => .error e

/-- What is to be compiled: the paths of the documents, the overwrites, and whether unknown keys
    are refused. -/
structure Request where
  paths : List Path
  overwrites : List (String × String)
  strict : Bool
deriving DecidableEq, Repr

/-- The overwrites of a request as a map: of two with one route the later counts. The order of the
    routes is one of those that the map may be gone through in. -/
def Request.overwriteMap (r : Request) : List (String × String) :=
  Keyed.ofList r.overwrites

/-- Loads the documents of a request and resolves them. -/
def compile (files : FileSystem) (factories : Factories) (r : Request) : Except Error Value :=
  if r.paths = [] then .error (.cause .noConfigPaths)
  else
    match r.paths.mapM (Document.load files) with
    | .error cause => .error (.cause cause)
    | .ok documents => resolve ⟨files, factories, r.strict⟩ documents r.overwriteMap

end Testbed.Rig

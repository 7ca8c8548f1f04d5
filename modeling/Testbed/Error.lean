import Testbed.Files.FileSystem
import Testbed.Number.Numeral
import Testbed.Text.Utf8

/-!
# Errors

What can go wrong, from loading a document to the last overwrite, with the wording of each cause.
A cause is wrapped with the place where it arose: the document and the location in it, or the
overwrite that was tried.

- `Cause` lists the causes; `Cause.message` words them.
- `Error` wraps a cause; `Error.root` gives it back, `Error.message` words the whole.
-/

namespace Testbed

/-! ## §1 Reasons -/

/-- Why a document could not be loaded. -/
inductive LoadFault where
  | unsupportedExtension
  | unreadable (fault : FileFault)
  | notText (fault : Text.Utf8Fault)
  | malformed
  | notMap (kind : String)
deriving DecidableEq, Repr

/-- The wording of a reason. -/
def LoadFault.message : LoadFault → String
  | .unsupportedExtension => "unsupported extension, expected json, yaml, yml or toml"
  | .unreadable fault => fault.message
  | .notText fault => fault.message
  | .malformed => "<syntax error>"
  | .notMap kind => s!"top level must be a map, got {kind}"

/-- Why a field cannot have its default. -/
inductive DefaultFault where
  | numeral (fault : Number.NumeralFault)
  | outOfRange
deriving DecidableEq, Repr

/-- The wording of a reason. -/
def DefaultFault.message : DefaultFault → String
  | .numeral fault => fault.message
  | .outOfRange => "out of range"

/-- Why an entry is no action. -/
inductive ActionFault where
  | emptyMap
  | manyKeys (count : Nat)
  | shorthandSegments (count : Nat)
  | keySegments (count : Nat)
  | emptySegment
  | serviceRequired (verb : String)
  | serviceForbidden (verb : String)
  | nameForbidden (verb : String)
  | nothingNegated
deriving DecidableEq, Repr

/-- The wording of a reason. -/
def ActionFault.message : ActionFault → String
  | .emptyMap => "empty action map"
  | .manyKeys count => s!"action map must have exactly one key, got {count}"
  | .shorthandSegments count => s!"string action must be verb/service, got {count} segments"
  | .keySegments count => s!"expected verb[/service[/name]], got {count} segments"
  | .emptySegment => "empty segment"
  | .serviceRequired verb => s!"service name required for action {verb}"
  | .serviceForbidden verb => s!"service name not allowed for action {verb}"
  | .nameForbidden verb => s!"custom name not allowed for action {verb}"
  | .nothingNegated => "not requires a nested action"

/-! ## §2 Causes -/

/-- The causes of errors. -/
inductive Cause where
  | load (path : Path) (fault : LoadFault)
  | unknownDirective (key : String)
  | badDefault (value kind : String) (fault : DefaultFault)
  | noDefaults (kind : String)
  | unknownFactory (name : String)
  | factoryTarget (name : String)
  | missingField (owner field : String)
  | notConfigMap (found : String)
  | mismatch (expected found : String)
  | overflow (value kind : String)
  | actionType (found : String)
  | badAction (entry : String) (fault : ActionFault)
  | unknownAction (entry : String)
  | expectationTypes (first second : String)
  | expectationKey (key : String)
  | noExpectationType
  | unknownSandbox (name : String)
  | unknownEnvironment (name : String)
  | unknownKey (key : String)
  | tooDeep (levels : Nat)
  | notLoadable (kind : String)
  | notAllowed (value : String) (allowed : List String)
  | keysMissing (keys : List String)
  | pathNotFound (path : Path)
  | fieldNotFound (name : String)
  | keyNotFound (key : String)
  | indexRequired (name : String)
  | indexNotAllowed (name : String)
  | indexOutOfRange (index length : Nat)
  | nestedLists
  | objectOverwrite
  | notNestable (kind segment : String)
  | badSegment (segment : String)
  | badNumber (value kind : String) (fault : Number.NumeralFault)
  | notSettable (kind : String)
  | nothingToMerge
  | noConfigPaths
deriving DecidableEq, Repr

/-- The wording of a cause. -/
def Cause.message : Cause → String
  | .load path fault => s!"loading config `{path}` failed: {fault.message}"
  | .unknownDirective key => s!"invalid parameter key `{key}`"
  | .badDefault value kind fault => s!"invalid default `{value}` for {kind}: {fault.message}"
  | .noDefaults kind => s!"default values are not supported for {kind} fields"
  | .unknownFactory name => s!"factory function `{name}` not found"
  | .factoryTarget name => s!"factory `{name}` cannot populate a field"
  | .missingField owner field =>
    s!"field `{field}` is declared in the schema of {owner} but not accessible"
  | .notConfigMap found => s!"config data must be a map, got {found}"
  | .mismatch expected found => s!"expected {expected}, got {found}"
  | .overflow value kind => s!"value `{value}` overflows {kind}"
  | .actionType found => s!"unsupported action type {found}"
  | .badAction entry fault => s!"invalid action `{entry}`: {fault.message}"
  | .unknownAction entry => s!"unknown action `{entry}`"
  | .expectationTypes first second =>
    s!"expectation has multiple types: `{first}` and `{second}`"
  | .expectationKey key => s!"invalid expectation key `{key}`"
  | .noExpectationType =>
    "expectation type missing, one of custom, metrics, output or response is required"
  | .unknownSandbox name => s!"unknown sandbox type `{name}`"
  | .unknownEnvironment name => s!"unknown environment type `{name}`"
  | .unknownKey key => s!"unknown key `{key}`"
  | .tooDeep levels => s!"nesting is deeper than {levels} levels"
  | .notLoadable kind => s!"loadable field must be a map or a list, got {kind}"
  | .notAllowed value allowed =>
    let values := ", ".intercalate allowed
    s!"invalid value `{value}`, allowed values: {values}"
  | .keysMissing keys =>
    let names := ", ".intercalate keys
    s!"at least one of the keys {names} must be present"
  | .pathNotFound path => s!"path `{path}` does not exist"
  | .fieldNotFound name => s!"field `{name}` not found"
  | .keyNotFound key => s!"key `{key}` not found"
  | .indexRequired name => s!"field `{name}` is an array and requires an index"
  | .indexNotAllowed name => s!"field `{name}` is not an array and cannot be indexed"
  | .indexOutOfRange index length => s!"index {index} out of range for array of length {length}"
  | .nestedLists => "array of arrays are not supported for overwrites"
  | .objectOverwrite => "overwrite cannot be done for object"
  | .notNestable kind segment => s!"{kind} value cannot be nested into `{segment}`"
  | .badSegment segment => s!"invalid path segment `{segment}`"
  | .badNumber value kind fault => s!"invalid {kind} value `{value}`: {fault.message}"
  | .notSettable kind => s!"overwrite is not supported for {kind} fields"
  | .nothingToMerge => "no configs to merge"
  | .noConfigPaths => "no config paths given, call .config_path() on the builder"

/-! ## §3 Errors -/

/-- A cause with the places that it was reported from, the outermost first. -/
inductive Error where
  | cause (cause : Cause)
  | located (path : Path) (location : String) (source : Error)
  | overwrite (path value : String) (source : Error)
deriving DecidableEq, Repr

namespace Error

/-- The cause of an error. -/
def root : Error → Cause
  | cause c => c
  | located _ _ source => source.root
  | overwrite _ _ source => source.root

/-- The wording of an error. -/
def message : Error → String
  | cause c => c.message
  | located path location source => s!"{path}: at `{location}`: {source.message}"
  | overwrite path value source => s!"overwriting `{path}` with `{value}` failed: {source.message}"

/-- Adds a document and a location, unless the error has them already. -/
def locate (path : Path) (location : String) : Error → Error
  | located p l source => located p l source
  | e => located path location e

/-- Locating keeps the cause. -/
@[simp] theorem root_locate (path : Path) (location : String) (e : Error) :
    (e.locate path location).root = e.root := by
  cases e <;> rfl

end Error

end Testbed

import Testbed.Directives
import Testbed.Value.Container

/-!
# Overwriting

Setting one scalar of a value from text, at a route such as `spec.instances[0].timeout`. The
segments of a route name fields of records (by their names in documents) and keys of maps, and
carry an index exactly where they lead into a list. The last segment may name a key of a map that
is not there yet.

- `Segment.read` reads a segment, `Segment.readRoute` a whole route.
- `Value.setAt` follows segments and sets the scalar at their end.
- `Value.overwrite` is the edit as a whole, its error wrapped with route and text.
-/

namespace Testbed

open Number

/-! ## §1 Routes -/

/-- A name, with an index where it leads into a list. -/
structure Segment where
  name : String
  index : Option Nat
deriving DecidableEq, Repr

namespace Segment

/-- The largest index that can be written. -/
def indexMax : Int := 2 ^ (64 : Nat) - 1

/-- The digits in front of a closing bracket that ends the text. -/
def beforeBracket? (cs : List Char) : Option (List Char) :=
  if cs.getLast? = some ']' then some cs.dropLast else none

/-- The name and index of a segment, if its brackets are in order. -/
def split? (cs : List Char) : Option (List Char × Option Nat) :=
  match Text.cutFirstOf '[' cs with
  | none => some (cs, none)
  | some (name, rest) =>
    (beforeBracket? rest).bind fun digits =>
      match readInt 0 indexMax digits with
      | .ok n => some (name, some n.toNat)
      | .error _ => none

/-- Reads a segment. A name is not empty and holds no bracket. -/
def read (raw : String) : Except Cause Segment :=
  match split? raw.toList with
  | some (name, index) =>
    if name = [] ∨ ']' ∈ name then .error (.badSegment raw)
    else .ok ⟨String.ofList name, index⟩
  | none => .error (.badSegment raw)

/-- Reads a route; the empty one has no segments. -/
def readRoute (route : String) : Except Cause (List Segment) :=
  if route = "" then .ok [] else (Text.pieces '.' route).mapM read

end Segment

namespace Value

/-! ## §2 Scalars -/

/-- Sets a scalar from text. Truth values cannot be set. -/
def setScalar (raw : String) (v : Value) : After Cause Value :=
  match v with
  | text _ => .done (text raw)
  | int w _ =>
    match readInt IntWidth.i64.low IntWidth.i64.high raw.toList with
    | .ok n =>
      match ofInt? w n with
      | some stored => .done stored
      | none => .failed (.overflow raw w.name) v
    -- a numeral that no word holds overflows every width
    | .error .tooLarge => .failed (.overflow raw w.name) v
    | .error .tooSmall => .failed (.overflow raw w.name) v
    | .error fault => .failed (.badNumber raw w.name fault) v
  | float w _ =>
    match readFloat raw.toList with
    | .ok x =>
      match ofFloat? w x with
      | some stored => .done stored
      | none => .failed (.overflow raw w.name) v
    | .error fault => .failed (.badNumber raw w.name fault) v
  | _ => .failed (.notSettable v.kind) v

/-! ## §3 Following a route -/

/-- Edits the first slot with a name in documents. -/
def editSlot (name : String) (edit : Edit) : Slots → After Cause Slots
  | [] => .failed (.fieldNotFound name) []
  | (field, v) :: rest =>
    match Directives.read field.tag with
    | .error key => .failed (.unknownDirective key) ((field, v) :: rest)
    | .ok d =>
      if d.name?.getD field.ident = name then
        match v with
        | absent => .failed (.fieldNotFound name) ((field, absent) :: rest)
        | v => (edit v).map fun v => (field, v) :: rest
      else (editSlot name edit rest).map ((field, v) :: ·)

/-- Edits what a segment leads to: the item at its index, or the value itself. -/
def editIndexed (segment : Segment) (edit : Edit) : Edit
  | list e items =>
    match segment.index with
    | some i => (editItem i items.length edit i items).map (list e)
    | none => .failed (.indexRequired segment.name) (list e items)
  | v =>
    match segment.index with
    | some _ => .failed (.indexNotAllowed segment.name) v
    | none => edit v

/-- Follows segments and sets the scalar at their end. -/
def setAt (raw : String) : List Segment → Edit
  | [], v =>
    match v with
    | record _ _ => .failed .objectOverwrite v
    | map _ _ => .failed .objectOverwrite v
    | list _ _ => .failed .nestedLists v
    | _ => setScalar raw v
  | segment :: rest, v =>
    match v with
    | record variant slots =>
      (editSlot segment.name (editIndexed segment (setAt raw rest)) slots).map (record variant)
    | map e entries =>
      let edit := editIndexed segment (setAt raw rest)
      -- only the last segment may name a key that is not there
      if rest = [] ∧ segment.index = none then
        (setEntry e segment.name edit entries).map (map e)
      else (editKey segment.name edit entries).map (map e)
    | list _ _ => .failed .nestedLists v
    | _ => .failed (.notNestable v.kind segment.name) v

/-- Sets the scalar at a route; the cause of a failure is wrapped with route and text. -/
def overwrite (route raw : String) (target : Value) : After Error Value :=
  let wrap (cause : Cause) : Error := .overwrite route raw (.cause cause)
  match Segment.readRoute route with
  | .ok segments =>
    let a := setAt raw segments target
    ⟨a.fault.map wrap, a.value⟩
  | .error cause => .failed (wrap cause) target

/-- Overwrites one route after the other and stops at the first failure; what was overwritten
    before stays. -/
def overwriteAll : List (String × String) → Value → After Error Value
  | [], target => .done target
  | (route, raw) :: rest, target =>
    let a := overwrite route raw target
    match a.fault with
    | none => overwriteAll rest a.value
    | some _ => a

end Value

end Testbed

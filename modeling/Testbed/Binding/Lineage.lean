import Testbed.Binding.Walker
import Testbed.Value.Overwrite

/-!
# Records that embed their parents

A record that refines another one embeds it, and whatever goes through the fields of a record goes
on in its parent: a walk fills its own fields and then those of the parent, from one map; the names
that a map may use are its own and then the parent's; and a field is looked for among its own before
it is looked for in the parent. Here these recursions stand as they are made, over a record with
slots of its own and an embedded parent. Elsewhere a record has all its slots in one list,
`Lineage.flat`.
-/

namespace Testbed

namespace Lineage

open Walk

/-! ## §1 Binding -/

/-- The zero value of a record and of its parents. -/
def zero : Lineage Shape → Lineage Value
  | root own => root (Fields.zero own)
  | refine own parent => refine (Fields.zero own) parent.zero

/-- Every slot back to its zero value. -/
def reset : Lineage Value → Lineage Value
  | root own => root (Value.resetSlots own)
  | refine own parent => refine (Value.resetSlots own) parent.reset

/-- The names of fields in documents. -/
def documentNames : Lineage Value → Except Cause (List String)
  | root own => Binding.documentNames own
  | refine own parent => do
    let names ← Binding.documentNames own
    let inherited ← parent.documentNames
    .ok (names ++ inherited)

/-- Binds the fields of a record, one after the other. The parent is filled from the same map. -/
def fields (context : Context) (deeper : Deeper) (document : Path)
    (data : List (String × Data)) : Lineage Value → Walk (Lineage Value)
  | root own => do
    let filled ← Binding.fields context deeper document data own
    pure (root filled)
  | refine own parent => do
    let filled ← Binding.fields context deeper document data own
    let inherited ← parent.fields context deeper document data
    pure (refine filled inherited)

/-- Binds the fields of a record inside a map. -/
def recordInside (context : Context) (deeper : Deeper) (document : Path)
    (data : List (String × Data)) (r : Lineage Value) : Walk (Lineage Value) :=
  insideMap do
    if context.strict then Binding.checkNames document data r.documentNames
    r.fields context deeper document data

/-- Binds data to a record. -/
def assign (context : Context) (deeper : Deeper) (document : Path) (data : Data)
    (r : Lineage Value) : Walk (Lineage Value) :=
  match data with
  | .null => pure r.reset
  | .map es => r.recordInside context deeper document es
  | _ => fail (Binding.mismatch "map" data)

/-- Binds data to a record at the level below which there are `n` more. -/
def assignAt (context : Context) :
    Nat → Path → Data → Lineage Value → Walk (Lineage Value)
  | 0 => fun _ _ _ => fail (.tooDeep maxDepth)
  | n + 1 => assign context (Deeper.level context n)

/-! ## §2 Overwriting -/

/-- Edits the first slot with a name in documents, if a slot has it. -/
def editOwn? (name : String) (edit : Edit) : Slots → Option (After Cause Slots)
  | [] => none
  | (field, v) :: rest =>
    match Directives.read field.tag with
    | .error key => some (.failed (.unknownDirective key) ((field, v) :: rest))
    | .ok d =>
      if d.name?.getD field.ident = name then
        match v with
        | .absent => some (.failed (.fieldNotFound name) ((field, .absent) :: rest))
        | v => some ((edit v).map fun v => (field, v) :: rest)
      else (editOwn? name edit rest).map fun a => a.map ((field, v) :: ·)

/-- Edits the slot with a name in documents. The parent is asked where no slot of a record's own
    has it. -/
def editField (name : String) (edit : Edit) : Lineage Value → After Cause (Lineage Value)
  | root own =>
    match editOwn? name edit own with
    | some a => a.map root
    | none => .failed (.fieldNotFound name) (root own)
  | refine own parent =>
    match editOwn? name edit own with
    | some a => a.map (refine · parent)
    | none => (editField name edit parent).map (refine own)

/-- Follows segments and sets the scalar at their end. -/
def setAt (raw : String) : List Segment → Lineage Value → After Cause (Lineage Value)
  | [], r => .failed .objectOverwrite r
  | segment :: rest, r =>
    r.editField segment.name (Value.editIndexed segment (Value.setAt raw rest))

/-- Sets the scalar at a route; the cause of a failure is wrapped with route and text. -/
def overwrite (route raw : String) (r : Lineage Value) : After Error (Lineage Value) :=
  let wrap (cause : Cause) : Error := .overwrite route raw (.cause cause)
  match Segment.readRoute route with
  | .ok segments =>
    let a := setAt raw segments r
    ⟨a.fault.map wrap, a.value⟩
  | .error cause => .failed (wrap cause) r

end Lineage

/-- Binds data to a record that embeds its parents. -/
def Walker.assignLineage (w : Walker) (data : Data) (r : Lineage Value) :
    Except Error (Lineage Value) × Walker :=
  w.run fun _ document => Lineage.assignAt w.context (maxDepth - w.depth) document data r

end Testbed

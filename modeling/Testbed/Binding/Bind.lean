import Testbed.Binding.Walk
import Testbed.Binding.Entry
import Testbed.Value.Container

/-!
# Binding

Filling a value from data. For every field of a record the data under the field's name is looked
up; null counts as absent. What is there goes through the directives of the field in this order:
a factory takes the field over; a bare text is put into a field inside the field; a pattern loads
other documents; a text must be one that is allowed; a map must have one of some keys; a text must
be the path of something that exists; and what is left is bound by shape. A field without data
takes its default, or its zero value. Fields of the record that a record refines follow its own.

How deep binding by shape and factories may go is limited. `Deeper` is what a walk may call one
level further down, and `Deeper.step` builds a level from the one below it; `Deeper.level` stacks
them up. A level with nothing below refuses.
-/

namespace Testbed

/-- The levels that binding may go down. -/
def maxDepth : Nat := 128

/-- What a walk in a document may call one level further down: binding by shape, filling by a
    factory, and making an action from an entry. -/
structure Deeper where
  assign : Path → Data → Value → Walk Value
  fill : Factory → Path → Data → Value → Walk Value
  action : Path → Data → Walk Value

namespace Binding

open Number Walk

/-! ## §1 Scalars -/

/-- The cause when data has not the kind that is expected. -/
def mismatch (expected : String) (data : Data) : Cause :=
  .mismatch expected data.kind

/-- Stores a scalar from data. A slot that cannot hold it stays as it is. -/
def storeScalar (data : Data) (target : Value) : After Cause Value :=
  match target with
  | .bool _ =>
    match data with
    | .bool b => .done (.bool b)
    | _ => .failed (mismatch "bool" data) target
  | .int w _ =>
    match data with
    | .int n => (Value.ofInt? w n).elim (.failed (.overflow (toString n) w.name) target) .done
    | _ => .failed (mismatch w.name data) target
  | .float w _ =>
    let store (x : Binary) :=
      (Value.ofFloat? w x).elim (.failed (.overflow x.messageText w.name) target) .done
    match data with
    | .int n => store (Binary.ofInt n)
    | .float x => store x
    | _ => .failed (mismatch w.name data) target
  | .text _ =>
    match data with
    | .text s => .done (.text s)
    | _ => .failed (mismatch "string" data) target
  | v => .done v

/-- A scalar from data. -/
def scalar (data : Data) (target : Value) : Except Cause Value :=
  (storeScalar data target).result

theorem scalar_int (w : IntWidth) (n old : Int) :
    scalar (.int n) (.int w old) =
      (Value.ofInt? w n).elim (.error (.overflow (toString n) w.name)) .ok :=
  After.result_elim _ _ _

theorem scalar_floatOfInt (w : FloatWidth) (n : Int) (old : Binary) :
    scalar (.int n) (.float w old) =
      (Value.ofFloat? w (Binary.ofInt n)).elim
        (.error (.overflow (Binary.ofInt n).messageText w.name)) .ok :=
  After.result_elim _ _ _

theorem scalar_float (w : FloatWidth) (x old : Binary) :
    scalar (.float x) (.float w old) =
      (Value.ofFloat? w x).elim (.error (.overflow x.messageText w.name)) .ok :=
  After.result_elim _ _ _

/-- The bounds of the integers that a default is read with. -/
def defaultBound : Int := 2 ^ (127 : Nat)

/-- Stores a field's default. Truth values, integers and texts have one; a slot that cannot hold it
    stays as it is. -/
def storeDefault (raw : String) (target : Value) : After Cause Value :=
  match target with
  | .bool _ =>
    match readBool raw with
    | .ok b => .done (.bool b)
    | .error fault => .failed (.badDefault raw "bool" (.numeral fault)) target
  | .int w _ =>
    match readInt (-defaultBound) (defaultBound - 1) raw.toList with
    | .ok n => (Value.ofInt? w n).elim (.failed (.badDefault raw w.name .outOfRange) target) .done
    | .error fault => .failed (.badDefault raw w.name (.numeral fault)) target
  | .text _ => .done (.text raw)
  | v => .failed (.noDefaults v.kind) v

/-- A field's default. -/
def ofDefault (raw : String) (target : Value) : Except Cause Value :=
  (storeDefault raw target).result

theorem ofDefault_bool (raw : String) (old : Bool) :
    ofDefault raw (.bool old) =
      match readBool raw with
      | .ok b => .ok (.bool b)
      | .error fault => .error (.badDefault raw "bool" (.numeral fault)) := by
  simp only [ofDefault, storeDefault]
  split <;> rfl

theorem ofDefault_int (raw : String) (w : IntWidth) (old : Int) :
    ofDefault raw (.int w old) =
      match readInt (-defaultBound) (defaultBound - 1) raw.toList with
      | .ok n => (Value.ofInt? w n).elim (.error (.badDefault raw w.name .outOfRange)) .ok
      | .error fault => .error (.badDefault raw w.name (.numeral fault)) := by
  simp only [ofDefault, storeDefault]
  split
  · exact After.result_elim _ _ _
  · rfl

/-! ## §2 Items and entries -/

variable {α : Type}

/-- Makes an item for each of some things, the first of which has the given index. -/
def items (make : α → Walk Value) : Nat → List α → Walk (List Value)
  | _, [] => pure []
  | index, x :: rest => do
    modify (Location.atIndex index)
    let v ← make x
    let vs ← items make (index + 1) rest
    pure (v :: vs)

/-- Fills the entries under the keys of some things; a key that comes again is filled again. -/
def entries (element : Shape) (fill : α → Value → Walk Value) :
    List (String × α) → List (String × Value) → Walk (List (String × Value))
  | [], filled => pure filled
  | (key, x) :: rest, filled => do
    modify (Location.atField key)
    let v ← fill x ((Keyed.get? key filled).getD element.zero)
    entries element fill rest (Keyed.insert key v filled)

/-- Fills a member of a family for each key, which names it. -/
def members (member? : String → Option Value) (unknown : String → Cause)
    (fill : Data → Value → Walk Value) :
    List (String × Data) → List (String × Value) → Walk (List (String × Value))
  | [], filled => pure filled
  | (key, x) :: rest, filled => do
    modify (Location.atField key)
    match member? key with
    | none => fail (unknown key)
    | some zero => do
      let v ← fill x zero
      members member? unknown fill rest (Keyed.insert key v filled)

/-! ## §3 Fields -/

/-- The directives of a field. -/
def directives (field : Field) : Except Cause Directives :=
  match Directives.read field.tag with
  | .ok d => .ok d
  | .error key => .error (.unknownDirective key)

/-- The name of a field in documents. -/
def documentName (field : Field) (d : Directives) : String :=
  d.name?.getD field.ident

/-- The names of fields in documents. -/
def documentNames : Slots → Except Cause (List String)
  | [] => .ok []
  | (field, _) :: rest => do
    let d ← directives field
    let names ← documentNames rest
    .ok (documentName field d :: names)

/-- Refuses the first key that is none of the names. -/
def checkNames (document : Path) (data : List (String × Data))
    (names : Except Cause (List String)) :
    Walk Unit := do
  let names ← located document (lift names)
  match data.find? fun (key, _) => !names.contains key with
  | none => pure ()
  | some (key, _) => do
    modify (Location.atField key)
    located document (fail (.unknownKey key))

/-- Refuses the first key that names none of the fields. -/
def checkKeys (document : Path) (data : List (String × Data)) (slots : Slots) : Walk Unit :=
  checkNames document data (documentNames slots)

/-- A path as a document means it: relative paths start at the document's directory. -/
def resolvePath (document raw : Path) : Path :=
  document.directory.join raw

/-- Loads the documents of a pattern into a list, in the order of their paths, or into a map, under
    their names. Errors inside a document are located in it. -/
def loaded (context : Context) (deeper : Deeper) (document : Path) (pattern : String)
    (target : Value) : Walk Value := do
  let documents ← lift (Document.loadMatching context.files document.directory pattern)
  let fill (d : Document) (v : Value) : Walk Value :=
    located d.path (deeper.assign d.path (.map d.entries) v)
  match target with
  | .list e _ => do
    let vs ← insideList (items (fun d => fill d e.zero) 0 documents)
    pure (.list e vs)
  | .map e _ => do
    let es ← insideMap (entries e fill (documents.map fun d => (d.name, d)) [])
    pure (.map e es)
  | v => fail (.notLoadable v.kind)

/-- The checks of a value that is bound by its shape: allowed texts and keys that must be there. -/
def checkValue (d : Directives) (data : Data) : Except Cause Unit := do
  match d.allowed? with
  | none => pure ()
  | some allowed =>
    match data with
    | .text s => if s ∈ allowed then pure () else .error (.notAllowed s allowed)
    | _ => .error (mismatch "string" data)
  match d.keys? with
  | none => pure ()
  | some keys =>
    match data with
    | .map es => if keys.any (Keyed.has · es) then pure () else .error (.keysMissing keys)
    | _ => .error (mismatch "map" data)

/-- The text of an existing path. -/
def existingPath (context : Context) (document : Path) (data : Data) (target : Value) :
    Except Cause Value :=
  match data with
  | .text raw =>
    let path := resolvePath document raw
    if context.files.isPresent path then
      match target with
      | .text _ => .ok (.text path)
      | v => .error (.mismatch v.kind "string")
    else .error (.pathNotFound path)
  | _ => .error (mismatch "string" data)

/-- Binds a value that no factory and no shorthand has taken over. -/
def value (context : Context) (deeper : Deeper) (document : Path) (d : Directives) (data : Data)
    (target : Value) : Walk Value :=
  let plain : Walk Value := do
    lift (checkValue d data)
    if d.isPath then lift (existingPath context document data target)
    else deeper.assign document data target
  match data with
  | .text pattern => if d.isLoadable then loaded context deeper document pattern target else plain
  | _ => plain

/-- Bare texts among entries put into a field. -/
def expanded (sub : String) : List (String × Data) → List (String × Data)
  | [] => []
  | (key, .text s) :: rest => (key, .map [(sub, .text s)]) :: expanded sub rest
  | e :: rest => e :: expanded sub rest

mutual
/-- Binds one field according to its directives. -/
def field (context : Context) (deeper : Deeper) (document : Path) (d : Directives) (data : Data)
    (target : Value) : Walk Value :=
  match d.factory? with
  | some name =>
    match context.factories.get? name with
    | some f => deeper.fill f document data target
    | none => fail (.unknownFactory name)
  | none =>
    match d.string?, data, target with
    | some sub, .text s, .record variant slots => do
      -- a bare text goes no level deeper than the field itself
      let bare := [(sub, Data.text s)]
      let filled ← insideMap do
        if context.strict then checkKeys document bare slots
        fields context deeper document bare slots
      pure (.record variant filled)
    | some sub, .map es, .map e old =>
      if e.isRecord then
        value context deeper document d (.map (expanded sub es)) (.map e old)
      else value context deeper document d data target
    | _, _, _ => value context deeper document d data target
/-- Binds the fields of a record, one after the other. -/
def fields (context : Context) (deeper : Deeper) (document : Path)
    (data : List (String × Data)) : Slots → Walk Slots
  | [] => pure []
  | (f, target) :: rest => do
    let d ← located document (lift (directives f))
    let name := documentName f d
    modify (Location.atField name)
    let bound ← located document <|
      match target with
      | .absent => fail (.missingField f.owner f.ident)
      | target =>
        match Keyed.get? name data with
        -- null counts as absent
        | some .null => lift (absentField d target)
        | some x => field context deeper document d x target
        | none => lift (absentField d target)
    let filled ← fields context deeper document data rest
    pure ((f, bound) :: filled)
where
  /-- What a field without data holds. -/
  absentField (d : Directives) (target : Value) : Except Cause Value :=
    match d.default? with
    | some raw => ofDefault raw target
    | none => .ok target.reset
end

/-- Binds the fields of a record inside a map. -/
def recordInside (context : Context) (deeper : Deeper) (document : Path)
    (data : List (String × Data)) (slots : Slots) : Walk Slots :=
  insideMap do
    if context.strict then checkKeys document data slots
    fields context deeper document data slots

/-! ## §4 Levels -/

/-- Binds data by the shape of a value. -/
def assign (context : Context) (deeper : Deeper) (document : Path) (data : Data)
    (target : Value) : Walk Value :=
  match data with
  -- null puts any value back to zero
  | .null => pure target.reset
  | _ =>
    match target with
    | .record variant slots =>
      match data with
      | .map es => do
        let filled ← recordInside context deeper document es slots
        pure (.record variant filled)
      | _ => fail (mismatch "map" data)
    | .map e _ =>
      match data with
      | .map es => do
        let filled ← insideMap (entries e (deeper.assign document) es [])
        pure (.map e filled)
      | _ => fail (mismatch "map" data)
    | .list e _ =>
      match data with
      | .list xs => do
        let filled ← insideList (items (fun x => deeper.assign document x e.zero) 0 xs)
        pure (.list e filled)
      | _ => fail (mismatch "list" data)
    | _ => lift (scalar data target)

/-- Fills a map whose keys name the members of a family. -/
def byName (deeper : Deeper) (f : Factory) (family : Family) (member : Platform → Variant)
    (unknown : String → Cause) (document : Path) (data : Data) (target : Value) : Walk Value :=
  match data with
  | .map es =>
    match target with
    | .map (.oneOf g) _ =>
      if g = family then do
        let member? key := (Platform.ofName? key).map fun p => (member p).zero
        let filled ← insideMap (members member? unknown (deeper.assign document) es [])
        pure (.map (.oneOf g) filled)
      else fail (.factoryTarget f.name)
    | _ => fail (.factoryTarget f.name)
  | _ => fail (mismatch "map" data)

/-- Fills a value by a factory. -/
def fill (deeper : Deeper) (f : Factory) (document : Path) (data : Data) (target : Value) :
    Walk Value :=
  match f with
  | .actions =>
    match data with
    | .list xs =>
      match target with
      | .list (.oneOf .action) _ => do
        let filled ← insideList (items (deeper.action document) 0 xs)
        pure (.list (.oneOf .action) filled)
      | _ => fail (.factoryTarget f.name)
    | _ => fail (mismatch "list" data)
  | .action =>
    match target with
    | .record (some (.action _)) _ => deeper.action document data
    | _ => fail (.factoryTarget f.name)
  | .sandboxes => byName deeper f .sandbox .sandbox .unknownSandbox document data target
  | .environments =>
    byName deeper f .environment .environment .unknownEnvironment document data target

/-- Makes an action from an entry. -/
def action (deeper : Deeper) (document : Path) (entry : Data) : Walk Value := do
  let plan ← lift (Entry.read entry)
  let bound ← deeper.assign document (.map plan.payload) (Variant.action plan.kind).zero
  pure (plan.finish bound)

end Binding

namespace Deeper

/-- The level at which nothing may go deeper. -/
def bottom : Deeper :=
  let refuse {α : Type} : Walk α := Walk.fail (.tooDeep maxDepth)
  ⟨fun _ _ _ => refuse, fun _ _ _ _ => refuse, fun _ _ => refuse⟩

/-- A level on top of another. -/
def step (context : Context) (deeper : Deeper) : Deeper :=
  ⟨Binding.assign context deeper, Binding.fill deeper, Binding.action deeper⟩

/-- The level below which there are `n` more. -/
def level (context : Context) : Nat → Deeper
  | 0 => bottom
  | n + 1 => step context (level context n)

end Deeper

end Testbed

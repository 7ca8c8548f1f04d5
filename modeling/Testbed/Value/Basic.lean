import Testbed.Data
import Testbed.Rig.Config

/-!
# Values

A value of a rig, which knows its own shape: a list and a map know the shape of their elements, a
record has its fields beside their values, and a member of a family says which member it is.

- `Shape.zero` is the value that a shape starts with.
- `Value.reset` puts a value back to that.
- `Value.toData` is the value as untyped data, which is how it is shown.
-/

namespace Testbed

open Number

/-- A value. A record that is a member of a family carries its variant. -/
inductive Value where
  | bool (value : Bool)
  | int (width : IntWidth) (value : Int)
  | float (width : FloatWidth) (value : Binary)
  | text (value : String)
  | list (element : Shape) (items : List Value)
  | map (element : Shape) (entries : List (String × Value))
  | record (variant : Option Variant) (slots : List (Field × Value))
  | absent
deriving Inhabited, Repr

/-- The fields of a record beside their values. -/
abbrev Slots := List (Field × Value)

/-! ## §1 Zero values -/

mutual
/-- The zero value of a shape, given those of the families. -/
def Shape.zeroWith (initial : Family → Value) : Shape → Value
  | .bool => .bool false
  | .int w => .int w 0
  | .float w => .float w Binary.zero
  | .text => .text ""
  | .list e => .list e []
  | .map e => .map e []
  | .record fields => .record none (zeroSlotsWith initial fields)
  | .oneOf f => initial f
  | .absent => .absent
/-- The zero values of a record's fields. -/
def zeroSlotsWith (initial : Family → Value) : Fields → Slots
  | [] => []
  | (field, shape) :: rest => (field, shape.zeroWith initial) :: zeroSlotsWith initial rest
end

/-- The fields of a member of a family. -/
def Variant.fields : Variant → Fields
  | .sandbox p => Rig.sandbox p
  | .environment p => Rig.environment p
  | .action k => Rig.action k

/-- The member that a family starts with. -/
def Family.first : Family → Variant
  | .sandbox => .sandbox .common
  | .environment => .environment .common
  | .action => .action .sequential

/-- The value that a family starts with. The first members hold no further choice outside of
    lists and maps, so what is put for one does not matter. -/
def Family.initial (f : Family) : Value :=
  .record (some f.first) (zeroSlotsWith (fun _ => .absent) f.first.fields)

/-- The zero value of a shape. -/
def Shape.zero (s : Shape) : Value :=
  s.zeroWith Family.initial

/-- The zero values of fields. -/
def Fields.zero (fields : Fields) : Slots :=
  zeroSlotsWith Family.initial fields

/-- The zero value of a member of a family. -/
def Variant.zero (v : Variant) : Value :=
  .record (some v) (Fields.zero v.fields)

/-- A family starts with the zero value of its first member. -/
theorem Family.initial_eq (f : Family) : f.initial = f.first.zero := by
  cases f <;> rfl

/-- The configuration that a walk starts from. -/
def Value.emptyConfig : Value :=
  .record none (Fields.zero Rig.config)

/-! ## §2 Views -/

namespace Value

/-- The name that messages give to the kind of a value. -/
def kind : Value → String
  | bool _ => "bool"
  | int w _ => w.name
  | float w _ => w.name
  | text _ => "string"
  | list _ _ => "list"
  | map _ _ => "map"
  | record _ _ => "struct"
  | absent => "absent"

mutual
/-- Back to the zero value: members of a family become its first member. -/
def reset : Value → Value
  | bool _ => bool false
  | int w _ => int w 0
  | float w _ => float w Binary.zero
  | text _ => text ""
  | list e _ => list e []
  | map e _ => map e []
  | record (some v) _ => v.family.initial
  | record none slots => record none (resetSlots slots)
  | absent => absent
/-- Every slot back to its zero value. -/
def resetSlots : Slots → Slots
  | [] => []
  | (field, v) :: rest => (field, v.reset) :: resetSlots rest
end

mutual
/-- The value as data: a record is a map from its fields' identifiers, and a field without a
    value is left out. -/
def toData : Value → Data
  | bool b => .bool b
  | int _ n => .int n
  | float _ x => .float x
  | text s => .text s
  | list _ items => .list (itemsData items)
  | map _ entries => .map (entriesData entries)
  | record _ slots => .map (Keyed.ofList (slotsData slots))
  | absent => .null
/-- The items of a list as data. -/
def itemsData : List Value → List Data
  | [] => []
  | v :: rest => v.toData :: itemsData rest
/-- The entries of a map as data. -/
def entriesData : List (String × Value) → List (String × Data)
  | [] => []
  | (key, v) :: rest => (key, v.toData) :: entriesData rest
/-- The slots of a record as data. -/
def slotsData : Slots → List (String × Data)
  | [] => []
  | (_, absent) :: rest => slotsData rest
  | (field, v) :: rest => (field.ident, v.toData) :: slotsData rest
end

/-- The slot that a record declares under an identifier. -/
def slot? (ident : String) : Value → Option Value
  | record _ slots => (slots.find? fun (field, _) => field.ident = ident).map (·.2)
  | _ => none

/-- Puts a value into the slot under an identifier. -/
def setSlot (target : Value) (ident : String) (v : Value) : Value :=
  match target with
  | record variant slots =>
    record variant (slots.map fun (field, w) => (field, if field.ident = ident then v else w))
  | w => w

/-- The text of a value that is one. -/
def text? : Value → Option String
  | text s => some s
  | _ => none

/-- The items of a value that is a list. -/
def items : Value → List Value
  | list _ xs => xs
  | _ => []

/-- The entries of a value that is a map. -/
def entries : Value → List (String × Value)
  | map _ es => es
  | _ => []

/-! ## §3 Storing scalars -/

/-- The integer as a value of a width, if it has that width. -/
def ofInt? (w : IntWidth) (n : Int) : Option Value :=
  if w.holds n then some (int w n) else none

/-- The float as a value of a width. A single takes the infinities, but no finite number larger
    than the largest single. -/
def ofFloat? (w : FloatWidth) (x : Binary) : Option Value :=
  match w with
  | .f32 => if x.exceedsSingle then none else some (float .f32 x.toSingle)
  | .f64 => some (float .f64 x)

end Value

end Testbed

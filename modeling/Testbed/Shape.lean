import Testbed.Number.Binary

/-!
# Shapes

What values a rig can hold, as data: scalars of a given width, lists, maps under text keys,
records with tagged fields, and choices among records. Binding, overwriting, merging and printing
are written once over shapes and serve every record of the rig.

A record may refine another one, which it embeds; its fields are then its own and, behind them,
those of its parent. Each field remembers the record that declares it. A choice is named by its
family, so that a family may occur inside its own members.
-/

namespace Testbed

open scoped Number

/-! ## §1 Scalars -/

/-- The widths of integers. -/
inductive IntWidth where
  | i8
  | i16
  | i32
  | i64
  | u8
  | u16
  | u32
  | u64
deriving DecidableEq, Repr

namespace IntWidth

/-- The name of a width in messages. -/
def name : IntWidth → String
  | i8 => "i8"
  | i16 => "i16"
  | i32 => "i32"
  | i64 => "i64"
  | u8 => "u8"
  | u16 => "u16"
  | u32 => "u32"
  | u64 => "u64"

/-- How many bits an integer of a width has. -/
def bits : IntWidth → Nat
  | i8 | u8 => 8
  | i16 | u16 => 16
  | i32 | u32 => 32
  | i64 | u64 => 64

/-- The least integer of a width. -/
def low (w : IntWidth) : Int :=
  match w with
  | i8 | i16 | i32 | i64 => -(2 ^ (w.bits - 1))
  | u8 | u16 | u32 | u64 => 0

/-- The greatest integer of a width. -/
def high (w : IntWidth) : Int :=
  match w with
  | i8 | i16 | i32 | i64 => 2 ^ (w.bits - 1) - 1
  | u8 | u16 | u32 | u64 => 2 ^ w.bits - 1

/-- Whether an integer has a width. -/
def holds (w : IntWidth) (n : Int) : Bool :=
  w.low ≤ n && n ≤ w.high

end IntWidth

/-- The widths of floats. -/
inductive FloatWidth where
  | f32
  | f64
deriving DecidableEq, Repr

/-- The name of a width in messages. -/
def FloatWidth.name : FloatWidth → String
  | .f32 => "f32"
  | .f64 => "f64"

/-! ## §2 Choices -/

/-- The families of records that a value can be chosen from. -/
inductive Family where
  | sandbox
  | environment
  | action
deriving DecidableEq, Repr

/-- The platforms that sandboxes and environments are made for; each but the first refines an
    earlier one. -/
inductive Platform where
  | common
  | host
  | container
  | docker
  | kubernetes
deriving DecidableEq, Repr

namespace Platform

/-- The name that entries for a platform are filed under. -/
def name : Platform → String
  | common => "common"
  | host => "local"
  | container => "container"
  | docker => "docker"
  | kubernetes => "kubernetes"

/-- The platform with a name. -/
def ofName? : String → Option Platform
  | "common" => some common
  | "local" => some host
  | "container" => some container
  | "docker" => some docker
  | "kubernetes" => some kubernetes
  | _ => none

/-- Every platform is found by its name. -/
@[simp] theorem ofName?_name (p : Platform) : ofName? p.name = some p := by
  cases p <;> rfl

end Platform

/-- The kinds of actions. -/
inductive ActionKind where
  | bench
  | execute
  | start
  | stop
  | restart
  | reload
  | request
  | expectCustom
  | expectMetrics
  | expectOutput
  | expectResponse
  | not
  | parallel
  | sequential
deriving DecidableEq, Repr

/-- A member of a family. -/
inductive Variant where
  | sandbox (platform : Platform)
  | environment (platform : Platform)
  | action (kind : ActionKind)
deriving DecidableEq, Repr

/-- The family of a member. -/
def Variant.family : Variant → Family
  | sandbox _ => .sandbox
  | environment _ => .environment
  | action _ => .action

/-! ## §3 Shapes -/

/-- A field of a record: the record that declares it, its name, and its tag. The name, `ident`, is
    the one under which a printed configuration shows the field. It is also the identifier that the
    field is declared with, except for the two that are shown as `match` and `type`: these are
    declared as `match_mode` and `output_type`, which no document, route or message names. -/
structure Field where
  owner : String
  ident : String
  tag : String
deriving DecidableEq, Repr

/-- The shape of a value. A field may be declared and have no value at all: it is `absent`. -/
inductive Shape where
  | bool
  | int (width : IntWidth)
  | float (width : FloatWidth)
  | text
  | list (element : Shape)
  | map (element : Shape)
  | record (fields : List (Field × Shape))
  | oneOf (family : Family)
  | absent
deriving Inhabited, Repr

/-- Whether values of a shape are records. -/
def Shape.isRecord : Shape → Bool
  | .record _ => true
  | .oneOf _ => true
  | _ => false

/-- The fields of a record. -/
abbrev Fields := List (Field × Shape)

/-- The fields that a record declares itself, each with its identifier, tag and shape. -/
def declare (owner : String) (fields : List (String × String × Shape)) : Fields :=
  fields.map fun (ident, tag, shape) => (⟨owner, ident, tag⟩, shape)

/-! ## §4 Records that refine each other -/

/-- What goes with the fields of a record that may refine another one: its own, and those of the
    parent that it embeds. -/
inductive Lineage (α : Type) where
  | root (own : List (Field × α))
  | refine (own : List (Field × α)) (parent : Lineage α)
deriving Repr

/-- All of it as one list: a record's own, followed by its parent's. -/
def Lineage.flat {α : Type} : Lineage α → List (Field × α)
  | root own => own
  | refine own parent => own ++ parent.flat

end Testbed

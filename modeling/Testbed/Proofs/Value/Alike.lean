import Testbed.Binding.Bind
import Testbed.Proofs.Value.Built

/-!
# Values that binding does not tell apart

Binding fills a value that is there already, and little of it matters: scalars are replaced, lists
and maps are emptied before they are filled, every field of a record is bound, takes its default or
goes back to zero, and a factory puts a member of a family in place of another one. Values are
`Alike` when they differ in nothing else. Those built as one shape says are, where no member of a
family stands in them outside of lists and maps (`Built.alike_zero`).
-/

namespace Testbed

open Binding

mutual
/-- Whether two values differ in nothing that binding looks at. -/
inductive Value.Alike : Value → Value → Prop
  | bool (b c : Bool) : Alike (.bool b) (.bool c)
  | int (w : IntWidth) (m n : Int) : Alike (.int w m) (.int w n)
  | float (w : FloatWidth) (x y : Number.Binary) : Alike (.float w x) (.float w y)
  | text (r s : String) : Alike (.text r) (.text s)
  | list (e : Shape) (vs ws : List Value) : Alike (.list e vs) (.list e ws)
  | map (e : Shape) (vs ws : List (String × Value)) : Alike (.map e vs) (.map e ws)
  | record (variant : Option Variant) {slots slots' : Slots} (h : Value.SlotsAlike slots slots') :
      Alike (.record variant slots) (.record variant slots')
  | absent : Alike .absent .absent
/-- Whether slots are those of the same fields, with values that binding does not tell apart. Where
    a factory fills a field, members of one family are not told apart. -/
inductive Value.SlotsAlike : Slots → Slots → Prop
  | nil : SlotsAlike [] []
  | bound (f : Field) {v v' : Value} {slots slots' : Slots} (hv : Value.Alike v v')
      (h : SlotsAlike slots slots') : SlotsAlike ((f, v) :: slots) ((f, v') :: slots')
  | filled {f : Field} {d : Directives} (hread : directives f = .ok d)
      (hfactory : d.factory?.isSome) {x y : Variant} (hfamily : x.family = y.family)
      (inside inside' : Slots) {slots slots' : Slots} (h : SlotsAlike slots slots') :
      SlotsAlike ((f, .record (some x) inside) :: slots) ((f, .record (some y) inside') :: slots')
end

namespace Value

variable {v v' : Value} {slots slots' : Slots} {s : Shape}

/-- Whether two values are members of one family. -/
def Akin (v v' : Value) : Prop :=
  ∃ (x y : Variant) (slots slots' : Slots),
    v = .record (some x) slots ∧ v' = .record (some y) slots' ∧ x.family = y.family

mutual
theorem Alike.refl : (v : Value) → Alike v v
  | .bool _ => .bool _ _
  | .int _ _ => .int _ _ _
  | .float _ _ => .float _ _ _
  | .text _ => .text _ _
  | .list _ _ => .list _ _ _
  | .map _ _ => .map _ _ _
  | .record variant slots => .record variant (SlotsAlike.refl slots)
  | .absent => .absent
theorem SlotsAlike.refl : (slots : Slots) → SlotsAlike slots slots
  | [] => .nil
  | (f, v) :: rest => .bound f (Alike.refl v) (SlotsAlike.refl rest)
end

mutual
/-- Where no member of a family stands outside of lists and maps, a value is alike to the zero value
    of its shape. -/
theorem Built.alike_zero : {v : Value} → {s : Shape} → Built v s → s.isFixed = true →
    Alike v s.zero
  | _, _, .bool _, _ => .bool _ _
  | _, _, .int _ _, _ => .int _ _ _
  | _, _, .float _ _, _ => .float _ _ _
  | _, _, .text _, _ => .text _ _
  | _, _, .list _, _ => .list _ _ _
  | _, _, .map _ _, _ => .map _ _ _
  | _, _, .record hslots, hs => .record none (hslots.alike_zero hs)
  | _, _, .absent, _ => .absent
/-- Slots of fixed fields are alike to new ones. -/
theorem SlotsBuilt.alike_zero : {slots : Slots} → {fs : Fields} → SlotsBuilt slots fs →
    fieldsFixed fs = true → SlotsAlike slots (Fields.zero fs)
  | _, _, .nil, _ => .nil
  | _, _, .cons hv hslots, hs => by
    simp only [fieldsFixed, Bool.and_eq_true] at hs
    exact .bound _ (hv.alike_zero hs.1) (hslots.alike_zero hs.2)
end

mutual
/-- Values that are alike are reset to the same. -/
theorem Alike.reset_eq : {v v' : Value} → Alike v v' → v.reset = v'.reset
  | _, _, .bool _ _ => rfl
  | _, _, .int _ _ _ => rfl
  | _, _, .float _ _ _ => rfl
  | _, _, .text _ _ => rfl
  | _, _, .list _ _ _ => rfl
  | _, _, .map _ _ _ => rfl
  | _, _, .record none h => congrArg (Value.record none) h.reset_eq
  | _, _, .record (some _) _ => rfl
  | _, _, .absent => rfl
theorem SlotsAlike.reset_eq : {slots slots' : Slots} → SlotsAlike slots slots' →
    resetSlots slots = resetSlots slots'
  | _, _, .nil => rfl
  | _, _, .bound f hv h => by rw [resetSlots, resetSlots, hv.reset_eq, h.reset_eq]
  | _, _, .filled _ _ hfamily _ _ h => by
    rw [resetSlots, resetSlots, h.reset_eq, reset, reset, hfamily]
end

end Value

end Testbed

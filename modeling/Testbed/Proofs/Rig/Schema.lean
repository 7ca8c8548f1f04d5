import Mathlib.Tactic.Tauto
import Testbed.Proofs.Value.Place
import Testbed.Value.Basic

/-!
# The schema of a rig

What the declarations of a rig keep to, for every record that a configuration can hold: a field is
written in documents under its identifier, which can be written in a route and is not used twice in
one record; a list does not hold lists; and every integer fits a signed word, every float is a
double. The families refer to each other, so this is checked for the members of the families one by
one, and for a shape as far as the next family.
-/

namespace Testbed

/-- Whether lists have the shape. -/
def Shape.isList : Shape → Bool
  | .list _ => true
  | _ => false

mutual
/-- Whether a shape keeps to the rules, up to the families in it. -/
def Shape.isTidy : Shape → Bool
  | .bool => true
  | .int w => w != .u64
  | .float w => w == .f64
  | .text => true
  | .list e => !e.isList && e.isTidy
  | .map e => e.isTidy
  | .record fields => tidyFields fields
  | .oneOf _ => true
  | .absent => false
/-- Whether the fields of a record keep to the rules. -/
def tidyFields : Fields → Bool
  | [] => true
  | (field, shape) :: rest =>
    field.documentName? = some field.ident && decide (Step.IsName field.ident) &&
      rest.all (fun e => e.1.ident != field.ident) && shape.isTidy && tidyFields rest
end

theorem tidyFields_cons {field : Field} {shape : Shape} {rest : Fields} :
    tidyFields ((field, shape) :: rest) = true ↔
      field.documentName? = some field.ident ∧ Step.IsName field.ident ∧
        (∀ e ∈ rest, e.1.ident ≠ field.ident) ∧ shape.isTidy = true ∧
        tidyFields rest = true := by
  simp [tidyFields, and_assoc]

/-- The shapes of tidy fields are tidy. -/
theorem isTidy_of_mem {fields : Fields} (ht : tidyFields fields = true) {f : Field} {s : Shape}
    (h : (f, s) ∈ fields) : s.isTidy = true := by
  induction fields with
  | nil => simp at h
  | cons e rest ih =>
    obtain ⟨-, -, -, hs, hrest⟩ := tidyFields_cons.mp ht
    rcases List.mem_cons.mp h with heq | h
    · rwa [(Prod.mk.inj heq).2]
    · exact ih hrest h

/-- A field is declared once. -/
theorem shape_eq_of_mem {fields : Fields} (ht : tidyFields fields = true) {f : Field}
    {s s' : Shape} (h : (f, s) ∈ fields) (h' : (f, s') ∈ fields) : s = s' := by
  induction fields with
  | nil => cases h
  | cons e rest ih =>
    obtain ⟨-, -, hdistinct, -, hrest⟩ := tidyFields_cons.mp ht
    rcases List.mem_cons.mp h with rfl | hin
    · rcases List.mem_cons.mp h' with heq | hin'
      · exact (Prod.mk.inj heq).2.symm
      · exact (hdistinct _ hin' rfl).elim
    · rcases List.mem_cons.mp h' with rfl | hin'
      · exact (hdistinct _ hin rfl).elim
      · exact ih hrest hin hin'

/-- Two lists of tidy fields are tidy together where no name is in both. -/
theorem tidyFields_append (fields others : Fields) :
    tidyFields (fields ++ others) = true ↔
      tidyFields fields = true ∧ tidyFields others = true ∧
        ∀ e ∈ fields, ∀ e' ∈ others, e'.1.ident ≠ e.1.ident := by
  induction fields with
  | nil => simp [tidyFields]
  | cons e rest ih =>
    obtain ⟨field, shape⟩ := e
    rw [List.cons_append, tidyFields_cons, tidyFields_cons, ih]
    simp only [List.forall_mem_append, List.forall_mem_cons]
    tauto

/-- The record that declares fields plays no part. -/
theorem tidyFields_declare (owner other : String) (fields : List (String × String × Shape)) :
    tidyFields (declare owner fields) = tidyFields (declare other fields) := by
  induction fields with
  | nil => rfl
  | cons e rest ih =>
    simp only [declare, List.map_cons, tidyFields, List.all_map] at ih ⊢
    rw [ih]
    rfl

namespace Rig

/-- The fields of a configuration are tidy. -/
theorem config_tidy : tidyFields config = true := by
  decide +kernel

theorem conduct_tidy (owner : String) : tidyFields (declare owner conduct) = true := by
  rw [tidyFields_declare owner ""]
  decide +kernel

/-- Fields of an action's own, with those that all actions have. -/
theorem tidyFields_conduct {owner : String} {own : List (String × String × Shape)}
    (hown : tidyFields (declare owner own) = true)
    (hnew : ∀ e ∈ own, ∀ e' ∈ conduct, e'.1 ≠ e.1) :
    tidyFields (declare owner (own ++ conduct)) = true := by
  have happend : declare owner (own ++ conduct) = declare owner own ++ declare owner conduct :=
    List.map_append
  rw [happend, tidyFields_append]
  refine ⟨hown, conduct_tidy owner, ?_⟩
  -- identifiers are the first parts of declarations
  intro e he e' he'
  obtain ⟨d, hd, rfl⟩ := List.mem_map.mp he
  obtain ⟨d', hd', rfl⟩ := List.mem_map.mp he'
  exact hnew d hd d' hd'

/-- The fields of every kind of action are tidy. -/
theorem action_tidy (k : ActionKind) : tidyFields (action k) = true := by
  cases k <;> exact tidyFields_conduct (by decide +kernel) (by decide +kernel)

/-- Every member of every family keeps to the rules. -/
theorem variant_tidy (variant : Variant) : tidyFields variant.fields = true := by
  cases variant with
  | sandbox p => cases p <;> decide +kernel
  | environment p => cases p <;> decide +kernel
  | action k => exact action_tidy k

end Rig

end Testbed

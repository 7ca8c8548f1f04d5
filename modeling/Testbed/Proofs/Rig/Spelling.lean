import Testbed.Proofs.Rig.Tags
import Testbed.Proofs.Value.Place

/-!
# What bare texts are put into

A directive may name a field inside the field that a bare text is put into, and a list of actions is
put into the `actions` of a group. What is put around such data has the names of fields: the record
that a text stands for has the field that the directive names, and so has each record of a map
(`variant_spelled`); and groups have actions (`knows_actions`).
-/

namespace Testbed

open Binding

/-- Whether a name is that of a field of a record. -/
def Fields.Knows (fs : Fields) (name : String) : Prop :=
  ∃ f s, (f, s) ∈ fs ∧ f.documentName? = some name

/-- Whether a name is that of a field of a record. -/
def Fields.knows (fs : Fields) (name : String) : Bool :=
  fs.any fun e => e.1.documentName? = some name

/-- The check whether fields know a name decides it. -/
theorem Fields.knows_iff {fs : Fields} {name : String} :
    Fields.knows fs name = true ↔ Fields.Knows fs name := by
  simp [knows, Knows]

/-! ## §1 Shapes -/

/-- Whether the record of a shape, or each of a map, has a field that a bare text can be put
    into. -/
def Shape.takesText (name : String) : Shape → Bool
  | .record fs => Fields.knows fs name
  | .map (.record fs) => Fields.knows fs name
  | .oneOf _ => false
  | .map (.oneOf _) => false
  | _ => true

/-- Whether the field that bare texts are put into is there, where a field asks for it. -/
def spelledField (field : Field) (s : Shape) : Bool :=
  match directives field with
  | .ok d => d.string?.all s.takesText
  | .error _ => true

mutual
/-- Whether the fields that bare texts are put into are there, up to the fields of families. -/
def Shape.isSpelled : Shape → Bool
  | .list e => e.isSpelled
  | .map e => e.isSpelled
  | .record fields => spelledFields fields
  | _ => true
/-- Whether the fields that bare texts are put into are there for each field of a record. -/
def spelledFields : Fields → Bool
  | [] => true
  | (field, s) :: rest => spelledField field s && s.isSpelled && spelledFields rest
end

theorem spelledFields_eq_all (fs : Fields) :
    spelledFields fs = fs.all fun e => spelledField e.1 e.2 && e.2.isSpelled := by
  induction fs with
  | nil => rfl
  | cons e rest ih => rw [spelledFields, ih, List.all_cons]

theorem spelled_of_mem {fs : Fields} (h : spelledFields fs = true) {f : Field} {s : Shape}
    (hf : (f, s) ∈ fs) : spelledField f s = true ∧ s.isSpelled = true := by
  rw [spelledFields_eq_all, List.all_eq_true] at h
  simpa only [Bool.and_eq_true] using h _ hf

/-! ## §2 The declarations of a rig -/

namespace Rig

/-- Bare texts stand for fields that exist, throughout a configuration. -/
theorem config_spelled : spelledFields config = true := by
  decide +kernel

/-- Bare texts stand for fields that exist, in all members of families. -/
theorem variant_spelled (variant : Variant) : spelledFields variant.fields = true := by
  rw [spelledFields_eq_all]
  refine all_variant (fun p => ?_) (fun p => ?_) (fun k => ?_) variant
  · cases p <;> decide +kernel
  · cases p <;> decide +kernel
  · have hconduct := @all_conduct (fun e => spelledField e.1 e.2 && e.2.isSpelled)
      (fun _ _ _ _ => rfl) (by decide +kernel)
    cases k <;> simp only [action, lifeCycle, expectation, hconduct] <;> decide +kernel

/-- Groups have actions. -/
theorem knows_actions {k : ActionKind} (hk : k = .parallel ∨ k = .sequential) :
    Fields.Knows (action k) "actions" := by
  apply Fields.knows_iff.mp
  rcases hk with rfl | rfl <;> decide +kernel

end Rig

end Testbed

import Testbed.Binding.Bind
import Testbed.Proofs.Overwrite.Setting

/-!
# The fields of actions

A field of an action is filled by its shape, or with actions by one of the two factories for them;
and every field can be left out, its default being one that it takes.
-/

namespace Testbed

namespace Rig

open Binding

/-- Whether a field is filled as those of an action are: by its shape, or with actions; and whether
    it can be left out. -/
def isActionSlot (s : Field × Value) : Bool :=
  match directives s.1 with
  | .error _ => false
  | .ok d =>
    (fields.absentField d s.2).toOption.isSome &&
      match d.factory?, s.2 with
      | none, .absent => false
      | none, _ => true
      | some "actions", .list (.oneOf .action) _ => true
      | some "action", .record (some (.action _)) _ => true
      | _, _ => false

/-- The record that declares fields plays no part. -/
theorem declare_slots (owner : String) (own : List (String × String × Shape)) :
    (Fields.zero (declare owner own)).all isActionSlot =
      own.all fun e => isActionSlot (⟨"", e.1, e.2.1⟩, e.2.2.zero) := by
  induction own with
  | nil => rfl
  | cons e rest ih =>
    rw [List.all_cons, ← ih]
    rfl

/-- The fields that all actions have are left to be checked once. -/
theorem conduct_slots (owner : String) (own : List (String × String × Shape)) :
    (Fields.zero (declare owner (own ++ conduct))).all isActionSlot =
      own.all fun e => isActionSlot (⟨"", e.1, e.2.1⟩, e.2.2.zero) := by
  have hconduct : (conduct.all fun e => isActionSlot (⟨"", e.1, e.2.1⟩, e.2.2.zero)) = true := by
    decide +kernel
  rw [declare_slots, List.all_append, hconduct, Bool.and_true]

/-- Every slot of an action is one of the sorts that `Filled` tells apart. -/
theorem action_slots (k : ActionKind) : (Fields.zero (action k)).all isActionSlot = true := by
  cases k <;> simp only [action, lifeCycle, expectation, conduct_slots] <;> decide +kernel

/-- How a field of an action is filled. -/
inductive Filled (d : Directives) : Value → Prop
  | plain {target : Value} (hfactory : d.factory? = none) (htarget : target ≠ .absent) :
      Filled d target
  | actions {old : List Value} (hfactory : d.factory? = some "actions") :
      Filled d (.list (.oneOf .action) old)
  | action {k : ActionKind} {slots : Slots} (hfactory : d.factory? = some "action") :
      Filled d (.record (some (.action k)) slots)

/-- A slot of a known sort has a value. -/
theorem Filled.ne_absent {d : Directives} {target : Value} (h : Filled d target) :
    target ≠ .absent := by
  cases h with
  | plain _ htarget => exact htarget
  | _ => simp

/-- A slot that passes the check is of a known sort, and its default can be read. -/
theorem filled_of_isActionSlot {f : Field} {target : Value}
    (h : isActionSlot (f, target) = true) :
    ∃ d, directives f = .ok d ∧ (∃ v, fields.absentField d target = .ok v) ∧ Filled d target := by
  unfold isActionSlot at h
  split at h
  · cases h
  · next d hd =>
    obtain ⟨habsent, hfilled⟩ := Bool.and_eq_true_iff.mp h
    obtain ⟨v, hv⟩ := Option.isSome_iff_exists.mp habsent
    refine ⟨d, hd, ⟨v, ok_of_toOption_eq_some hv⟩, ?_⟩
    split at hfilled
    · cases hfilled
    · next hfactory hne => exact .plain hfactory (fun heq => hne heq)
    · next hfactory htarget =>
      obtain rfl : target = .list (.oneOf .action) _ := htarget
      exact .actions hfactory
    · next hfactory htarget =>
      obtain rfl : target = .record (some (.action _)) _ := htarget
      exact .action hfactory
    · cases hfilled

/-- Every slot of an action is of a known sort. -/
theorem filled_of_mem {k : ActionKind} {f : Field} {target : Value}
    (h : (f, target) ∈ Fields.zero (action k)) :
    ∃ d, directives f = .ok d ∧ (∃ v, fields.absentField d target = .ok v) ∧ Filled d target :=
  filled_of_isActionSlot (List.all_eq_true.mp (action_slots k) _ h)

end Rig

end Testbed

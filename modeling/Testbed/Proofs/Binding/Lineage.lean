import Testbed.Binding.Lineage
import Testbed.Proofs.Binding.Plain

/-!
# One list for a record and its parents

A record has all its slots in one list, while the recursions of `Lineage` go through its own slots
and then on into the parent that it embeds. Both come to the same: binding all slots of a list in
turn is binding those of the first part and then those of the second (`Binding.fields_append`),
the names that keys are checked against come in the same order, and the first slot with a name is
found in the same place. So walks (`Walker.assign_flat`) and overwrites (`Value.overwrite_flat`) of
the list are those of the record with its parents.
-/

namespace Testbed

open Walk

/-! ## §1 Walks -/

namespace Binding

variable {context : Context} {d : Deeper} {document : Path}

/-- The names of two runs of slots are those of the first and those of the second. -/
theorem documentNames_append (own base : Slots) :
    documentNames (own ++ base) = (do
      let names ← documentNames own
      let others ← documentNames base
      .ok (names ++ others)) := by
  induction own with
  | nil =>
    rw [List.nil_append, documentNames, ok_bind]
    exact (bind_pure (documentNames base)).symm
  | cons s rest ih =>
    obtain ⟨f, v⟩ := s
    rw [List.cons_append, documentNames, documentNames, ih]
    simp only [bind_assoc, ok_bind, List.cons_append]

/-- Two runs of slots are bound one after the other, from one map. -/
theorem fields_append (data : List (String × Data)) (own base : Slots) :
    fields context d document data (own ++ base) = (do
      let filled ← fields context d document data own
      let others ← fields context d document data base
      pure (filled ++ others)) := by
  induction own with
  | nil => simp [fields]
  | cons s rest ih =>
    obtain ⟨f, v⟩ := s
    rw [List.cons_append, fields_cons, fields_cons, ih]
    simp only [bind_assoc, pure_bind, List.cons_append]

end Binding

theorem Value.resetSlots_append (own base : Slots) :
    resetSlots (own ++ base) = resetSlots own ++ resetSlots base := by
  induction own with
  | nil => rfl
  | cons s rest ih =>
    obtain ⟨f, v⟩ := s
    rw [List.cons_append, resetSlots, resetSlots, ih, List.cons_append]

/-- What is made of a result inside of a map can be made of it outside. -/
theorem Walk.insideMap_map {α β : Type} (f : α → β) (w : Walk α) :
    insideMap (f <$> w) = f <$> insideMap w := by
  simp only [insideMap, map_eq_pure_bind, bind_assoc, pure_bind]

namespace Lineage

variable {context : Context} {d : Deeper} {document : Path}

/-- A record is reset with what it refines. -/
theorem flat_reset (r : Lineage Value) : r.reset.flat = Value.resetSlots r.flat := by
  induction r with
  | root own => rfl
  | refine own parent ih => rw [reset, flat, ih, flat, Value.resetSlots_append]

/-- The names of a record are its own, then those of what it refines. -/
theorem documentNames_flat (r : Lineage Value) :
    Binding.documentNames r.flat = r.documentNames := by
  induction r with
  | root own => rfl
  | refine own parent ih => rw [flat, Binding.documentNames_append, ih, documentNames]

/-- The fields of a record are bound before those of what it refines, as if they stood in one
    list. -/
theorem fields_flat (data : List (String × Data)) (r : Lineage Value) :
    Binding.fields context d document data r.flat =
      flat <$> r.fields context d document data := by
  induction r with
  | root own =>
    rw [fields, map_bind]
    exact (bind_pure _).symm
  | refine own parent ih =>
    rw [flat, Binding.fields_append, ih, fields]
    simp only [map_eq_pure_bind, bind_assoc, pure_bind, flat]

/-- Binding what is inside of a record goes through what it refines as through fields of its own. -/
theorem recordInside_flat (data : List (String × Data)) (r : Lineage Value) :
    Binding.recordInside context d document data r.flat =
      flat <$> r.recordInside context d document data := by
  rw [Binding.recordInside, recordInside, ← insideMap_map, Binding.checkKeys, documentNames_flat,
    fields_flat]
  cases context.strict with
  | false => rfl
  | true => exact congrArg insideMap (map_bind _ _ _).symm

/-- Binding a record at any level is binding it with its parents. Null leaves no member of a family
    what it was, so for null it is to be a record of its own. -/
theorem assignAt_flat {data : Data} {variant : Option Variant} (h : data = .null → variant = none)
    (n : Nat) (r : Lineage Value) :
    (Deeper.level context n).assign document data (.record variant r.flat) =
      (fun r' => Value.record variant r'.flat) <$> assignAt context n document data r := by
  cases n with
  | zero => rfl
  | succ n =>
    cases data with
    | null =>
      obtain rfl := h rfl
      rw [assignAt, assign, map_pure, flat_reset]
      rfl
    | map es =>
      rw [assignAt, assign, ← Functor.map_map, ← recordInside_flat, map_eq_pure_bind]
      rfl
    | _ => rfl

end Lineage

/-- A walker runs what is made of a walk's result as it runs the walk. -/
theorem Walker.run_map {α β : Type} (w : Walker) (f : α → β) (walk : Deeper → Path → Walk α) :
    w.run (fun deeper document => f <$> walk deeper document) =
      (w.run walk).map (f <$> ·) id := by
  simp only [run, map_eq_pure_bind, bind, EStateM.bind]
  cases walk (Deeper.level w.context (maxDepth - w.depth)) w.document w.location <;> rfl

/-- A walk of data into a record is the one into the record with its parents, and leaves the walker
    at the same place. -/
theorem Walker.assign_flat (w : Walker) {data : Data} {variant : Option Variant}
    (h : data = .null → variant = none) (r : Lineage Value) :
    w.assign data (.record variant r.flat) =
      (w.assignLineage data r).map ((fun r' => Value.record variant r'.flat) <$> ·) id := by
  rw [assignLineage, ← run_map]
  simp only [assign, run, Lineage.assignAt_flat h]

/-! ## §2 Overwrites -/

namespace Value

/-- An edit among two runs of slots is one in the first run, or, where no slot of it has the name,
    one in the second. -/
theorem editSlot_append (name : String) (edit : Edit) (own base : Slots) :
    editSlot name edit (own ++ base) =
      ((Lineage.editOwn? name edit own).map fun a => a.map (· ++ base)).getD
        ((editSlot name edit base).map (own ++ ·)) := by
  induction own with
  | nil => rfl
  | cons s rest ih =>
    obtain ⟨field, v⟩ := s
    rw [List.cons_append]
    unfold Lineage.editOwn?
    conv_lhs => unfold editSlot
    cases Directives.read field.tag with
    | error key => rfl
    | ok d =>
      by_cases hname : d.name?.getD field.ident = name
      · simp only [hname, if_true]
        cases v <;> rfl
      · simp only [hname, if_false, ih]
        cases Lineage.editOwn? name edit rest <;> rfl

theorem editSlot_eq (name : String) (edit : Edit) (own : Slots) :
    editSlot name edit own =
      (Lineage.editOwn? name edit own).getD (.failed (.fieldNotFound name) own) := by
  have hlast := editSlot_append name edit own []
  rw [List.append_nil] at hlast
  rw [hlast]
  cases Lineage.editOwn? name edit own with
  | none => simp [editSlot, After.map, After.failed]
  | some a => simp [After.map]

/-- An edit of the slot with a name is one in the record with its parents. -/
theorem editField_flat (name : String) (edit : Edit) (r : Lineage Value) :
    editSlot name edit r.flat = (r.editField name edit).map Lineage.flat := by
  induction r with
  | root own =>
    rw [Lineage.flat, editSlot_eq, Lineage.editField]
    cases Lineage.editOwn? name edit own <;> rfl
  | refine own parent ih =>
    rw [Lineage.flat, editSlot_append, ih, Lineage.editField]
    cases Lineage.editOwn? name edit own <;> rfl

/-- An overwrite of a record is the one of the record with its parents. -/
theorem overwrite_flat (route raw : String) (variant : Option Variant) (r : Lineage Value) :
    overwrite route raw (record variant r.flat) =
      (r.overwrite route raw).map fun r' => record variant r'.flat := by
  unfold overwrite Lineage.overwrite
  cases Segment.readRoute route with
  | error cause => rfl
  | ok segments =>
    cases segments with
    | nil => rfl
    | cons segment rest =>
      simp only [setAt, Lineage.setAt, editField_flat]
      rfl

end Value

end Testbed

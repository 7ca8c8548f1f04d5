import Testbed.Value.Overwrite

/-!
# Failed overwrites

An overwrite can fail at any of its steps: at a route that cannot be read, a field or key that is
not there, an index that is missing, forbidden or out of range, a text that is no number or too
large a one. Wherever it fails, the value is afterwards what it was. The edits that an overwrite is
built from are `Atomic` when those inside them are, and setting a scalar is atomic.
-/

namespace Testbed

/-- An edit that changes nothing when it fails. -/
def After.Unchanged {ε α : Type} (before : α) (a : After ε α) : Prop :=
  a.fault ≠ none → a.value = before

/-- An edit that leaves every value as it was when it fails. -/
def Edit.Atomic (edit : Edit) : Prop :=
  ∀ v, (edit v).Unchanged v

namespace After

variable {ε α β : Type}

@[simp] theorem unchanged_done (before value : α) : (done value : After ε α).Unchanged before :=
  fun h => absurd rfl h

@[simp] theorem unchanged_failed (fault : ε) (before : α) : (failed fault before).Unchanged before :=
  fun _ => rfl

/-- What holds an unchanged value is unchanged. -/
theorem Unchanged.map {before : α} {a : After ε α} (h : a.Unchanged before) (f : α → β) :
    (a.map f).Unchanged (f before) :=
  fun hfault => congrArg f (h hfault)

end After

namespace Value

open After

/-! ## §1 Edits inside containers -/

theorem editKey_unchanged {edit : Edit} (h : edit.Atomic) (key : String)
    (entries : List (String × Value)) : (editKey key edit entries).Unchanged entries := by
  induction entries with
  | nil => exact unchanged_failed _ _
  | cons e rest ih =>
    obtain ⟨k, v⟩ := e
    unfold editKey
    split
    · exact (h v).map fun v => (k, v) :: rest
    · exact ih.map ((k, v) :: ·)

/-- A new entry is put into the map only when the edit of its zero value has succeeded. -/
theorem setEntry_unchanged {edit : Edit} (h : edit.Atomic) (element : Shape) (key : String)
    (entries : List (String × Value)) :
    (setEntry element key edit entries).Unchanged entries := by
  unfold setEntry
  split
  · exact editKey_unchanged h key entries
  · -- the zero value may have changed, but it was never in the map
    simp only
    split
    · exact unchanged_done _ _
    · exact unchanged_failed _ _

theorem editItem_unchanged {edit : Edit} (h : edit.Atomic) (index length position : Nat)
    (items : List Value) : (editItem index length edit position items).Unchanged items := by
  induction items generalizing position with
  | nil => cases position <;> exact unchanged_failed _ _
  | cons v rest ih =>
    cases position with
    | zero => exact (h v).map (· :: rest)
    | succ i => exact (ih i).map (v :: ·)

/-- A failed edit of a slot leaves the slots. -/
theorem editSlot_unchanged {edit : Edit} (h : edit.Atomic) (name : String) (slots : Slots) :
    (editSlot name edit slots).Unchanged slots := by
  induction slots with
  | nil => exact unchanged_failed _ _
  | cons e rest ih =>
    obtain ⟨field, v⟩ := e
    unfold editSlot
    split
    · exact unchanged_failed _ _
    · -- the slot with the name is edited, unless it has no value; another one is passed by
      split
      · split
        · exact unchanged_failed _ _
        · exact (h v).map fun v => (field, v) :: rest
      · exact ih.map ((field, v) :: ·)

/-- An edit behind an index is atomic if the edit itself is. -/
theorem editIndexed_atomic {edit : Edit} (h : edit.Atomic) (segment : Segment) :
    (editIndexed segment edit).Atomic := by
  intro v
  unfold editIndexed
  split
  · next e items =>
    split
    · next i _ => exact (editItem_unchanged h i items.length i items).map (list e)
    · exact unchanged_failed _ _
  · split
    · exact unchanged_failed _ _
    · exact h v

/-! ## §2 The whole edit -/

/-- A text that a scalar does not take leaves it as it was. -/
theorem setScalar_atomic (raw : String) : Edit.Atomic (setScalar raw) := by
  intro v
  unfold setScalar
  split
  · exact unchanged_done _ _
  · -- an integer that is read may still be too large for its place
    split
    · split
      · exact unchanged_done _ _
      · exact unchanged_failed _ _
    · exact unchanged_failed _ _
    · exact unchanged_failed _ _
    · exact unchanged_failed _ _
  · split
    · split
      · exact unchanged_done _ _
      · exact unchanged_failed _ _
    · exact unchanged_failed _ _
  · exact unchanged_failed _ _

/-- Following segments is atomic, by induction on the segments: what an edit of the outer value
    leaves behind is what the edit of the rest left behind, in its old surroundings. -/
theorem setAt_atomic (raw : String) (segments : List Segment) :
    Edit.Atomic (setAt raw segments) := by
  induction segments with
  | nil =>
    intro v
    unfold setAt
    split
    · exact unchanged_failed _ _
    · exact unchanged_failed _ _
    · exact unchanged_failed _ _
    · exact setScalar_atomic raw v
  | cons segment rest ih =>
    have hinside := editIndexed_atomic ih segment
    intro v
    unfold setAt
    split
    · next variant slots => exact (editSlot_unchanged hinside segment.name slots).map (record variant)
    · next e entries =>
      simp only
      split
      · exact (setEntry_unchanged hinside e segment.name entries).map (map e)
      · exact (editKey_unchanged hinside segment.name entries).map (map e)
    · exact unchanged_failed _ _
    · exact unchanged_failed _ _

/-- An overwrite that fails, at whatever step, leaves the target exactly as it was. -/
theorem overwrite_failed_value {route raw : String} {target : Value} {fault : Error}
    (h : (overwrite route raw target).fault = some fault) :
    (overwrite route raw target).value = target := by
  unfold overwrite at h ⊢
  split
  · -- the edit has failed, and the overwrite only puts the failure into words
    next segments hread =>
    simp only [hread, Option.map_eq_some_iff] at h
    obtain ⟨cause, hcause, -⟩ := h
    have hfault : (setAt raw segments target).fault ≠ none := by simp [hcause]
    exact setAt_atomic raw segments target hfault
  · rfl

/-- An entry of a map of records cannot be made from text, and no entry is left behind. -/
theorem overwrite_failed_value_entry :
    ∃ fault, (overwrite "configs.main" "x" (record none (Fields.zero Rig.server))).fault =
        some fault ∧
      (overwrite "configs.main" "x" (record none (Fields.zero Rig.server))).value =
        record none (Fields.zero Rig.server) := by
  have hfails : (overwrite "configs.main" "x" (record none (Fields.zero Rig.server))).fault.isSome =
      true := by
    decide +kernel
  obtain ⟨fault, hfault⟩ := Option.isSome_iff_exists.mp hfails
  exact ⟨fault, hfault, overwrite_failed_value hfault⟩

end Value

end Testbed

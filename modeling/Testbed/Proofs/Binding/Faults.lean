import Testbed.Proofs.Binding.Building
import Testbed.Proofs.Binding.Inside
import Testbed.Proofs.Rig.Tags

/-!
# What stops binding

Some causes blame the declarations of a rig rather than a document: a tag that cannot be read, a
default that a field does not take, a factory that is not known or does not fit, a field without a
value. `Blameless x` says that whatever stops the computation `x` is no such cause. No file and no
entry of a document makes binding blame the declarations, and neither do a field's checks and its
default, if what its tag asks for can be done.
-/

namespace Testbed

/-- Whether a cause blames the declarations of a rig, or a value of a shape none of them has. -/
def Cause.blamesSchema : Cause → Bool
  | unknownDirective _ => true
  | badDefault _ _ _ => true
  | noDefaults _ => true
  | missingField _ _ => true
  | unknownFactory _ => true
  | factoryTarget _ => true
  | notLoadable _ => true
  | notConfigMap _ => true
  | nestedLists => true
  | _ => false

/-- Whether a computation comes to a result, or is stopped by a cause that does not blame the
    declarations. -/
def Blameless {α : Type} (x : Except Cause α) : Prop :=
  ∀ cause, x = .error cause → cause.blamesSchema = false

section

variable {α β : Type} {x : Except Cause α} {f : α → Except Cause β}

theorem blameless_ok (a : α) : Blameless (Except.ok a : Except Cause α) := by
  rintro cause ⟨⟩

theorem blameless_error {cause : Cause} (h : cause.blamesSchema = false) :
    Blameless (Except.error cause : Except Cause α) := by
  rintro _ ⟨⟩
  exact h

theorem Blameless.bind (hx : Blameless x) (hf : ∀ a, Blameless (f a)) : Blameless (x >>= f) := by
  cases x with
  | ok a => exact hf a
  | error cause => exact blameless_error (hx cause rfl)

/-- A list is gone through blamelessly where each of its elements is. -/
theorem blameless_mapM {g : β → Except Cause α} (h : ∀ b, Blameless (g b)) (bs : List β) :
    Blameless (bs.mapM g) := by
  induction bs with
  | nil => exact blameless_ok []
  | cons b rest ih =>
    rw [List.mapM_cons]
    exact (h b).bind fun a => ih.bind fun as => blameless_ok (a :: as)

end

/-! ## §1 Files and entries -/

/-- A document that cannot be loaded is no fault of the declarations. -/
theorem Document.load_blameless (files : FileSystem) (path : Path) :
    Blameless (load files path) := by
  unfold load
  simp only
  split
  · exact blameless_ok _
  · exact blameless_error rfl

theorem Document.loadMatching_blameless (files : FileSystem) (directory : Path) (pattern : String) :
    Blameless (loadMatching files directory pattern) := by
  unfold loadMatching
  simp only
  split
  · exact blameless_error rfl
  · exact blameless_mapM (load_blameless files) _

namespace Entry

/-- An expectation that is not made out is the fault of its entry. -/
theorem expectationKind_blameless (found : Option (String × ActionKind))
    (es : List (String × Data)) : Blameless (expectationKind found es) := by
  induction es generalizing found with
  | nil =>
    cases found with
    | none => exact blameless_error rfl
    | some first => exact blameless_ok _
  | cons e rest ih =>
    rw [expectationKind]
    split
    · exact ih found
    · split
      · exact blameless_error rfl
      · split
        · exact blameless_error rfl
        · exact ih _

theorem bad_blameless {α : Type} (entry : String) (fault : ActionFault) :
    Blameless (bad entry fault : Except Cause α) :=
  blameless_error rfl

theorem Key.read_blameless (raw : String) : Blameless (Key.read raw) := by
  unfold Key.read
  simp only
  split
  · exact bad_blameless _ _
  · split
    · exact bad_blameless _ _
    · exact blameless_ok _

theorem Key.requireService_blameless (k : Key) : Blameless k.requireService := by
  unfold Key.requireService
  split
  · exact blameless_ok _
  · exact bad_blameless _ _

theorem Key.forbidService_blameless (k : Key) : Blameless k.forbidService := by
  unfold Key.forbidService
  split
  · exact bad_blameless _ _
  · exact blameless_ok _

theorem Key.forbidName_blameless (k : Key) : Blameless k.forbidName := by
  unfold Key.forbidName
  split
  · exact bad_blameless _ _
  · exact blameless_ok _

theorem payloadMap_blameless (payload : Data) : Blameless (payloadMap payload) := by
  unfold payloadMap
  split
  · exact blameless_ok _
  · exact blameless_ok _
  · exact blameless_error rfl

theorem groupMap_blameless (payload : Data) : Blameless (groupMap payload) := by
  unfold groupMap
  split
  · exact blameless_ok _
  · exact payloadMap_blameless _

theorem readShorthand_blameless (raw : String) : Blameless (readShorthand raw) := by
  unfold readShorthand
  split
  · split
    · exact bad_blameless _ _
    · split
      · exact blameless_ok _
      · exact blameless_ok _
      · exact blameless_error rfl
  · exact bad_blameless _ _

theorem readKeyed_blameless (raw : String) (payload : Data) :
    Blameless (readKeyed raw payload) := by
  refine (Key.read_blameless raw).bind fun key => ?_
  simp only
  split
  · exact blameless_error rfl
  · split
    · exact blameless_error rfl
    · exact (expectationKind_blameless _ _).bind fun kind => blameless_ok _
    · exact blameless_error rfl
  · refine key.forbidService_blameless.bind fun _ => ?_
    split
    · split
      · exact blameless_ok _
      · exact bad_blameless _ _
    · exact blameless_error rfl
  · next kind _ =>
    have hgroup : Blameless (do
        let entries ← groupMap payload
        .ok ⟨kind, entries, key.service, key.name⟩ : Except Cause Plan) :=
      (groupMap_blameless payload).bind fun _ => blameless_ok _
    split
    · exact key.forbidName_blameless.bind fun _ => hgroup
    · exact hgroup
  · exact key.requireService_blameless.bind fun _ => key.forbidName_blameless.bind fun _ =>
      (payloadMap_blameless payload).bind fun _ => blameless_ok _
  · exact key.requireService_blameless.bind fun _ =>
      (payloadMap_blameless payload).bind fun _ => blameless_ok _

/-- Reading an entry blames the entry and nothing else. -/
theorem read_blameless (entry : Data) : Blameless (read entry) := by
  unfold read
  split
  · exact readShorthand_blameless _
  · exact readKeyed_blameless _ _
  · exact bad_blameless _ _
  · exact bad_blameless _ _
  · exact blameless_error rfl

end Entry

namespace Binding

open Value

variable {context : Context} {document : Path} {d : Directives} {target : Value} {s : Shape}
  {slots : Slots} {fs : Fields}

/-! ## §2 Fields -/

theorem scalar_blameless (data : Data) (target : Value) : Blameless (scalar data target) := by
  have hstore (v : Option Value) (raw kind : String) :
      Blameless (v.elim (.error (.overflow raw kind)) Except.ok) := by
    cases v with
    | none => exact blameless_error rfl
    | some v => exact blameless_ok v
  cases target with
  | bool b => cases data <;> first | exact blameless_ok _ | exact blameless_error rfl
  | text s => cases data <;> first | exact blameless_ok _ | exact blameless_error rfl
  | int w old =>
    cases data with
    | int n => exact scalar_int w n old ▸ hstore _ _ _
    | _ => exact blameless_error rfl
  | float w old =>
    cases data with
    | int n => exact scalar_floatOfInt w n old ▸ hstore _ _ _
    | float x => exact scalar_float w x old ▸ hstore _ _ _
    | _ => exact blameless_error rfl
  | _ => exact blameless_ok _

/-- The default of a sound tag can be read, so a field that is not set is blameless. -/
theorem absentField_blameless (h : Built target s) (hd : Directed d s) :
    Blameless (fields.absentField d target) := by
  rw [absentField_eq_zero h, fields.absentField]
  cases hdefault : d.default? with
  | none => exact blameless_ok _
  | some raw =>
    cases hd with
    | factory _ _ hfree =>
      rw [hfree.default] at hdefault
      cases hdefault
    | shape _ _ hsuits =>
      obtain ⟨v, hv⟩ := hsuits.default raw hdefault
      show Blameless (ofDefault raw s.zero)
      rw [hv]
      exact blameless_ok v

/-- The tags of sound fields can be read, and so can their names. -/
theorem documentNames_blameless (h : SlotsBuilt slots fs) (hsound : soundFields fs = true) :
    Blameless (documentNames slots) := by
  induction slots generalizing fs with
  | nil => exact blameless_ok _
  | cons e rest ih =>
    cases h with
    | cons _ hslots =>
      obtain ⟨hfield, hrest⟩ := soundFields_cons.mp hsound
      obtain ⟨d, hd, -⟩ := directed_of_soundField hfield
      rw [documentNames, hd]
      exact (ih hslots hrest).bind fun names => blameless_ok _

/-- The checks of a tag blame the data. -/
theorem checkValue_blameless (d : Directives) (data : Data) : Blameless (checkValue d data) := by
  have hallowed : Blameless (allowedCheck d data) := by
    unfold allowedCheck
    split
    · exact blameless_ok _
    · split
      · split
        · exact blameless_ok _
        · exact blameless_error rfl
      · exact blameless_error rfl
  have hpresence : Blameless (presenceCheck d data) := by
    unfold presenceCheck
    split
    · exact blameless_ok _
    · split
      · split
        · exact blameless_ok _
        · exact blameless_error rfl
      · exact blameless_error rfl
  rw [checkValue_eq]
  exact hallowed.bind fun _ => hpresence

theorem existingPath_blameless (data : Data) (target : Value) :
    Blameless (existingPath context document data target) := by
  unfold existingPath
  split
  · simp only
    split
    · split
      · exact blameless_ok _
      · exact blameless_error rfl
    · exact blameless_error rfl
  · exact blameless_error rfl

end Binding

end Testbed

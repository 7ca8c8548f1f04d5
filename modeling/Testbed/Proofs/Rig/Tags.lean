import Testbed.Binding.Bind
import Testbed.Proofs.Results

/-!
# Tags and shapes

What the tags of a rig ask for can be done. Every tag is read; a default is one that the field
takes, and one of the texts that are allowed; texts alone are paths or have texts allowed, lists and
maps alone are loaded; and the members of families stand in fields that a factory fills, which ask
for nothing else. The families refer to each other, so this is checked for their members one by one
(`variant_sound`), and for a shape as far as the next field that a factory fills.
-/

namespace Testbed

open Binding

/-! ## §1 Factories -/

namespace Factory

/-- The shape of the fields that a factory fills. -/
def shape : Factory → Shape
  | actions => .list (.oneOf .action)
  | action => .oneOf .action
  | sandboxes => .map (.oneOf .sandbox)
  | environments => .map (.oneOf .environment)

/-- Whether a factory fills fields of a shape. -/
def fits : Factory → Shape → Bool
  | actions, .list (.oneOf .action) => true
  | action, .oneOf .action => true
  | sandboxes, .map (.oneOf .sandbox) => true
  | environments, .map (.oneOf .environment) => true
  | _, _ => false

/-- A factory fits the shape that it makes, and no other. -/
theorem eq_shape_of_fits {f : Factory} {s : Shape} (h : f.fits s = true) : s = f.shape := by
  unfold fits at h
  split at h <;> first | rfl | cases h

end Factory

/-! ## §2 Fields -/

/-- Whether texts have the shape. -/
def Shape.isText : Shape → Bool
  | .text => true
  | _ => false

/-- Whether lists or maps have the shape. -/
def Shape.isContainer : Shape → Bool
  | .list _ => true
  | .map _ => true
  | _ => false

namespace Directives

variable {d : Directives} {s : Shape}

/-- Whether directives ask for nothing that a field filled by a factory could not do. -/
def isFree (d : Directives) : Bool :=
  d.default?.isNone && d.allowed?.isNone && d.keys?.isNone && !d.isPath

/-- Whether a field that is bound by its shape can do what directives ask for. -/
def suits (d : Directives) (s : Shape) : Bool :=
  (d.default?.all fun raw => (ofDefault raw s.zero).toOption.isSome) &&
    (d.allowed?.all fun allowed => s.isText && d.default?.all (allowed.contains ·)) &&
    (!d.isPath || s.isText && d.default?.isNone && d.allowed?.isNone) &&
    (!d.isLoadable || s.isContainer && d.keys?.isNone)

/-- What a field filled by a factory is not asked for. -/
structure Free (d : Directives) : Prop where
  default : d.default? = none
  allowed : d.allowed? = none
  keys : d.keys? = none
  path : d.isPath = false

/-- What a field that is bound by its shape is asked for. -/
structure Suits (d : Directives) (s : Shape) : Prop where
  default : ∀ raw ∈ d.default?, ∃ v, ofDefault raw s.zero = .ok v
  allowed : ∀ allowed ∈ d.allowed?, s = .text ∧ ∀ raw ∈ d.default?, raw ∈ allowed
  path : d.isPath = true → s = .text ∧ d.default? = none ∧ d.allowed? = none
  loadable : d.isLoadable = true → (∃ e, s = .list e ∨ s = .map e) ∧ d.keys? = none

theorem free_of_isFree (h : d.isFree = true) : d.Free := by
  simp only [isFree, Bool.and_eq_true, Option.isNone_iff_eq_none, Bool.not_eq_true'] at h
  obtain ⟨⟨⟨hdefault, hallowed⟩, hkeys⟩, hpath⟩ := h
  exact ⟨hdefault, hallowed, hkeys, hpath⟩

theorem suits_of_suits (h : d.suits s = true) : d.Suits s := by
  have htext : s.isText = true → s = .text := by
    cases s <;> simp [Shape.isText]
  simp only [suits, Bool.and_eq_true, Option.all_eq_true, Bool.or_eq_true, Bool.not_eq_true',
    Option.isNone_iff_eq_none, List.contains_iff_mem] at h
  obtain ⟨⟨⟨hdefault, hallowed⟩, hpath⟩, hloadable⟩ := h
  refine ⟨?_, ?_, ?_, ?_⟩
  · intro raw hraw
    obtain ⟨v, hv⟩ := Option.isSome_iff_exists.mp (hdefault raw hraw)
    exact ⟨v, ok_of_toOption_eq_some hv⟩
  · intro allowed hmem
    obtain ⟨hs, hin⟩ := hallowed allowed hmem
    exact ⟨htext hs, hin⟩
  · intro hd
    rcases hpath with hnot | ⟨⟨hs, hnone⟩, hfree⟩
    · rw [hd] at hnot
      cases hnot
    · exact ⟨htext hs, hnone, hfree⟩
  · intro hd
    rcases hloadable with hnot | ⟨hs, hnone⟩
    · rw [hd] at hnot
      cases hnot
    · refine ⟨?_, hnone⟩
      cases s with
      | list e => exact ⟨e, .inl rfl⟩
      | map e => exact ⟨e, .inr rfl⟩
      | _ => cases hs

end Directives

/-! ## §3 Shapes -/

mutual
/-- Whether what tags ask for can be done in a shape, up to the fields that factories fill. -/
def Shape.isSound : Shape → Bool
  | .list e => e.isSound
  | .map e => e.isSound
  | .record fields => soundFields fields
  | .oneOf _ => false
  | .absent => false
  | _ => true
/-- Whether what the tag of a field asks for can be done. -/
def soundField : Field × Shape → Bool
  | (field, s) =>
    match directives field with
    | .error _ => false
    | .ok d =>
      match d.factory? with
      | some name => (Factories.standard.get? name).any (·.fits s) && d.isFree
      | none => s.isSound && d.suits s
/-- Whether what the tags of fields ask for can be done. -/
def soundFields : Fields → Bool
  | [] => true
  | e :: rest => soundField e && soundFields rest
end

/-- How a field of a shape is bound: it is filled by a factory, or bound by its shape. -/
inductive Directed (d : Directives) : Shape → Prop
  | factory {name : String} {f : Factory} (hname : d.factory? = some name)
      (hf : Factories.standard.get? name = some f) (hfree : d.Free) : Directed d f.shape
  | shape {s : Shape} (hfactory : d.factory? = none) (hs : s.isSound = true) (hsuits : d.Suits s) :
      Directed d s

/-- A field with a sound tag has a value. -/
theorem Directed.ne_absent {d : Directives} {s : Shape} (h : Directed d s) : s ≠ .absent := by
  cases h with
  | @factory name f _ _ _ => cases f <;> simp [Factory.shape]
  | shape _ hs _ =>
    rintro rfl
    cases hs

/-- What no factory fills is bound by its shape. -/
theorem Directed.of_factory_none {d : Directives} {s : Shape} (h : Directed d s)
    (hfactory : d.factory? = none) : s.isSound = true ∧ d.Suits s := by
  cases h with
  | factory hname _ _ => cases hname.symm.trans hfactory
  | shape _ hs hsuits => exact ⟨hs, hsuits⟩

/-- A factory that a field asks for is known and fits. -/
theorem Directed.of_factory_some {d : Directives} {s : Shape} (h : Directed d s) {name : String}
    (hname : d.factory? = some name) :
    ∃ f, Factories.standard.get? name = some f ∧ s = f.shape := by
  cases h with
  | factory hname' hf _ =>
    obtain rfl := Option.some.inj (hname'.symm.trans hname)
    exact ⟨_, hf, rfl⟩
  | shape hfactory _ _ => cases hfactory.symm.trans hname

/-- The tag of a sound field can be read, and directs its shape. -/
theorem directed_of_soundField {field : Field} {s : Shape} (h : soundField (field, s) = true) :
    ∃ d, directives field = .ok d ∧ Directed d s := by
  unfold soundField at h
  split at h
  · cases h
  · next d hd =>
    refine ⟨d, hd, ?_⟩
    split at h
    · next name hname =>
      obtain ⟨hany, hfree⟩ := Bool.and_eq_true_iff.mp h
      obtain ⟨f, hf, hfits⟩ := (Option.any_eq_true _ _).mp hany
      obtain rfl := Factory.eq_shape_of_fits hfits
      exact .factory hname hf (Directives.free_of_isFree hfree)
    · next hfactory =>
      obtain ⟨hs, hsuits⟩ := Bool.and_eq_true_iff.mp h
      exact .shape hfactory hs (Directives.suits_of_suits hsuits)

theorem soundFields_eq_all (fields : Fields) : soundFields fields = fields.all soundField := by
  induction fields with
  | nil => rfl
  | cons e rest ih => rw [soundFields, ih, List.all_cons]

theorem soundFields_cons {e : Field × Shape} {rest : Fields} :
    soundFields (e :: rest) = true ↔ soundField e = true ∧ soundFields rest = true := by
  rw [soundFields, Bool.and_eq_true]

/-- Each of some sound fields is directed by its tag. -/
theorem directed_of_mem {fields : Fields} (h : soundFields fields = true) {field : Field}
    {s : Shape} (hf : (field, s) ∈ fields) {d : Directives} (hd : directives field = .ok d) :
    Directed d s := by
  rw [soundFields_eq_all] at h
  obtain ⟨d', hd', hdirected⟩ := directed_of_soundField (List.all_eq_true.mp h _ hf)
  obtain rfl : d = d' := Except.ok.inj (hd.symm.trans hd')
  exact hdirected

/-! ## §4 The declarations of a rig -/

namespace Rig

section

variable {check : Field × Shape → Bool}

/-- Where the record that declares a field plays no part, the fields that all actions have are left
    to be checked once. -/
theorem all_conduct
    (howner : ∀ owner ident tag s, check (⟨owner, ident, tag⟩, s) = check (⟨"", ident, tag⟩, s))
    (hconduct : (declare "" conduct).all check = true) (owner : String)
    (own : List (String × String × Shape)) :
    (declare owner (own ++ conduct)).all check = (declare "" own).all check := by
  have hdeclare (fields : List (String × String × Shape)) :
      (declare owner fields).all check = (declare "" fields).all check := by
    simp only [declare, List.all_map, Function.comp_def, howner]
  rw [hdeclare, declare, List.map_append, List.all_append, ← declare, ← declare, hconduct,
    Bool.and_true]

/-- What the members of a lineage declare is checked for each of them. -/
theorem all_lineage {own : Platform → Fields} (h : ∀ p, (own p).all check = true) (p : Platform) :
    (lineage own p).flat.all check = true := by
  cases p <;> simp only [lineage, Lineage.flat, List.all_append, h, Bool.and_self]

/-- The fields of the members of all families are checked. -/
theorem all_variant (hsandbox : ∀ p, (sandboxOwn p).all check = true)
    (henvironment : ∀ p, (environmentOwn p).all check = true)
    (haction : ∀ k, (action k).all check = true) (variant : Variant) :
    variant.fields.all check = true := by
  cases variant with
  | sandbox p => exact all_lineage hsandbox p
  | environment p => exact all_lineage henvironment p
  | action k => exact haction k

end

/-- The fields of a configuration are sound. -/
theorem config_sound : soundFields config = true := by
  decide +kernel

/-- What the tags of every member of every family ask for can be done. -/
theorem variant_sound (variant : Variant) : soundFields variant.fields = true := by
  rw [soundFields_eq_all]
  refine all_variant (fun p => ?_) (fun p => ?_) (fun k => ?_) variant
  · cases p <;> decide +kernel
  · cases p <;> decide +kernel
  · have hconduct := @all_conduct soundField (fun _ _ _ _ => rfl) (by decide +kernel)
    cases k <;> simp only [action, lifeCycle, expectation, hconduct] <;> decide +kernel

end Rig

end Testbed

import Testbed.Proofs.Binding.Postcondition

/-!
# Binding keeps values as they are put together

What binding gives in place of a value built as a shape says is built so again, whatever stands in
documents and files (`Deeper.level_builds`).
-/

namespace Testbed

namespace Binding

open Walk Value

variable {context : Context} {document : Path}

theorem built_map {e : Shape} {es : List (String × Value)}
    (h : EachEntry (fun _ v => Built v e) es) :
    Built (.map e es) (.map e) :=
  .map h.order h.each

/-! ## §1 Scalars -/

section

variable {target v : Value} {s : Shape}

theorem built_of_ofInt? {w : IntWidth} {n : Int} {cause : Cause}
    (h : (ofInt? w n).elim (.error cause) Except.ok = .ok v) : Built v (.int w) := by
  cases hstored : ofInt? w n with
  | none => simp [hstored] at h
  | some stored =>
    obtain rfl : stored = v := by simpa [hstored] using h
    obtain ⟨-, rfl⟩ := ofInt?_eq_some_iff.mp hstored
    exact .int w n

theorem built_of_ofFloat? {w : FloatWidth} {x : Number.Binary} {cause : Cause}
    (h : (ofFloat? w x).elim (.error cause) Except.ok = .ok v) : Built v (.float w) := by
  cases hstored : ofFloat? w x with
  | none => simp [hstored] at h
  | some stored =>
    obtain rfl : stored = v := by simpa [hstored] using h
    obtain ⟨y, rfl⟩ := ofFloat?_eq_some hstored
    exact .float w y

theorem built_of_scalar {data : Data} (hs : Built target s) (h : scalar data target = .ok v) :
    Built v s := by
  cases hs with
  | bool b =>
    cases data <;> cases h
    exact .bool _
  | int w n =>
    cases data with
    | int m => exact built_of_ofInt? (scalar_int w m n ▸ h)
    | _ => cases h
  | float w x =>
    cases data with
    | int m => exact built_of_ofFloat? (scalar_floatOfInt w m x ▸ h)
    | float y => exact built_of_ofFloat? (scalar_float w y x ▸ h)
    | _ => cases h
  | text r =>
    cases data <;> cases h
    exact .text _
  | list hitems => cases h; exact .list hitems
  | map horder hentries => cases h; exact .map horder hentries
  | record hslots => cases h; exact .record hslots
  | member hslots => cases h; exact .member hslots
  | absent => cases h; exact .absent

theorem built_of_ofDefault {raw : String} (hs : Built target s)
    (h : ofDefault raw target = .ok v) : Built v s := by
  cases hs with
  | bool b =>
    rw [ofDefault_bool] at h
    split at h
    · cases h
      exact .bool _
    · cases h
  | int w n =>
    rw [ofDefault_int] at h
    split at h
    · exact built_of_ofInt? h
    · cases h
  | text r =>
    cases h
    exact .text _
  | _ => cases h

/-- Whether a default is taken is a matter of the shape alone. -/
theorem ofDefault_eq_zero (h : Built target s) (raw : String) :
    ofDefault raw target = ofDefault raw s.zero := by
  cases h with
  | @member variant _ _ =>
    rw [show (Shape.oneOf variant.family).zero = variant.family.first.zero from
      Family.initial_eq _]
    rfl
  | bool b => exact (ofDefault_bool raw b).trans (ofDefault_bool raw false).symm
  | int w n => exact (ofDefault_int raw w n).trans (ofDefault_int raw w 0).symm
  | _ => rfl

/-- What a field without data holds is a matter of its shape alone. -/
theorem absentField_eq_zero (h : Built target s) (d : Directives) :
    fields.absentField d target = fields.absentField d s.zero := by
  unfold fields.absentField
  split
  · exact ofDefault_eq_zero h _
  · rw [h.reset_eq, (built_zero s).reset_eq]

/-- A field that a document does not set keeps its shape. -/
theorem built_of_absentField {d : Directives} (hs : Built target s)
    (h : fields.absentField d target = .ok v) : Built v s := by
  unfold fields.absentField at h
  split at h
  · exact built_of_ofDefault hs h
  · cases h
    exact hs.reset

theorem built_of_existingPath {data : Data} (hs : Built target s)
    (h : existingPath context document data target = .ok v) : Built v s := by
  unfold existingPath at h
  split at h
  · simp only at h
    split at h
    · split at h
      · cases hs
        cases h
        exact .text _
      · cases h
    · cases h
  · cases h

end

end Binding

/-! ## §2 Actions -/

namespace Plan

open Value

/-- Whether a field is not one that a key sets, or holds a text. -/
def isSetByText (e : Field × Shape) : Bool :=
  match e.2 with
  | .text => true
  | _ => e.1.ident ∉ ["service", "id", "name"]

/-- The fields that the key of an entry may set are texts, in every kind of action. -/
theorem isSetByText_action (kind : ActionKind) : (Rig.action kind).all isSetByText = true := by
  cases kind <;> decide

/-- Setting the service or the name of an action leaves it an action. -/
theorem built_setText {v : Value} (hv : Built v (.oneOf .action)) {ident : Option String}
    (hident : ∀ i ∈ ident, i ∈ ["service", "id", "name"]) (raw : Option String) :
    Built (setText ident raw v) (.oneOf .action) := by
  cases ident with
  | none => exact hv
  | some ident =>
    cases raw with
    | none => exact hv
    | some raw =>
      obtain ⟨variant, slots, rfl, hfamily, hslots⟩ := hv.exists_member
      cases variant with
      | action kind =>
        refine .member (v := .action kind) (hslots.setSlot fun f s hmem hf => ?_)
        -- the field that is set holds a text
        have hfield := List.all_eq_true.mp (isSetByText_action kind) _ hmem
        unfold isSetByText at hfield
        split at hfield
        · next heq =>
          obtain rfl : s = .text := heq
          exact .text raw
        · have hset : f.ident ∈ ["service", "id", "name"] := hf ▸ hident ident rfl
          simp [hset] at hfield
      | _ => cases hfamily

/-- The field with the name of an action is one of those that a key may set. -/
theorem nameField?_mem (kind : ActionKind) :
    ∀ i ∈ nameField? kind, i ∈ ["service", "id", "name"] := by
  cases kind <;> decide

/-- An action whose service and name come from the key of its entry is still an action. -/
theorem built_finish {v : Value} (hv : Built v (.oneOf .action)) (plan : Plan) :
    Built (plan.finish v) (.oneOf .action) := by
  apply built_setText _ (nameField?_mem plan.kind)
  apply built_setText hv
  split <;> simp

end Plan

/-! ## §3 Walks -/

/-- What is bound or filled is built as what was there before. -/
def Binding.building (context : Context) : Binding.Postcondition context where
  Bound _ v w := ∀ s, v.Built s → w.Built s
  Filled _ v w := ∀ s, v.Built s → w.Built s
  Field _ v w := ∀ s, v.Built s → w.Built s
  SlotsBound slots slots' := ∀ fs, Value.SlotsBuilt slots fs → Value.SlotsBuilt slots' fs
  Stands e v := v.Built e
  Made v := v.Built (.oneOf .action)
  null _ _ hv := hv.reset
  scalar _ h _ hv := Binding.built_of_scalar hv h
  list hitems _ hv := by
    cases hv
    exact .list hitems
  map hentries _ _ hv := by
    cases hv
    exact Binding.built_map hentries
  record hslots _ hv := by
    cases hv with
    | record h => exact .record (hslots _ h)
    | member h => exact .member (hslots _ h)
  zero := Value.built_zero
  again hv h := h _ hv
  absent h _ hv := Binding.built_of_absentField hv h
  loadedList _ _ hitems _ hv := by
    cases hv
    exact .list hitems
  loadedMap _ _ hentries _ hv := by
    cases hv
    exact Binding.built_map hentries
  path _ _ h _ hv := Binding.built_of_existingPath hv h
  bound _ _ _ h := h
  bare _ hslots _ hv := by
    cases hv with
    | record h => exact .record (hslots _ h)
    | member h => exact .member (hslots _ h)
  filled _ _ h := h
  nil _ h := h
  cons _ hv hslots _ h := by
    cases h with
    | cons h hrest => exact .cons (hv _ h) (hslots _ hrest)
  sandboxes hentries _ hv := by
    cases hv
    refine .map hentries.order fun key v hmem => ?_
    obtain ⟨p, x, hbound⟩ := hentries.each key v hmem
    exact hbound _ (Value.built_variant (.sandbox p))
  environments hentries _ hv := by
    cases hv
    refine .map hentries.order fun key v hmem => ?_
    obtain ⟨p, x, hbound⟩ := hentries.each key v hmem
    exact hbound _ (Value.built_variant (.environment p))
  actions hitems _ hv := by
    cases hv
    exact .list hitems
  action hmade _ hv := by
    cases hv
    exact hmade
  made _ hbound := Plan.built_finish (hbound _ (Value.built_variant _)) _

/-- Walks keep values as they are put together, however deep they may go. -/
theorem Deeper.level_builds {context : Context} (n : Nat) (document : Path) (data : Data)
    {target : Value} {s : Shape} (hs : target.Built s) :
    ((level context n).assign document data target).Ensures (Value.Built · s) :=
  (((Binding.building context).level n).assign document data target).mono fun _ hv => hv s hs

end Testbed

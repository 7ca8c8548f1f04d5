import Testbed.Proofs.Binding.Plain
import Testbed.Proofs.Data.Sorted
import Testbed.Proofs.Value.Shaped

/-!
# Data with something inside

Setting something inside of data leaves alone whatever binding finds out about the data itself: the
keys of a map stay, so do the checks of a field, and putting bare texts of a map into fields can
wait.
-/

namespace Testbed

namespace Binding

variable {context : Context} {deeper : Deeper} {document : Path} {d : Directives} {target : Value}

theorem keys_expanded (sub : String) (es : List (String × Data)) :
    Keyed.keys (expanded sub es) = Keyed.keys es := by
  induction es using expanded.induct <;> simp_all [expanded]

/-- An entry is as it was, or has a bare text put into a field. -/
theorem mem_expanded {sub key : String} {es : List (String × Data)} {x : Data}
    (h : (key, x) ∈ expanded sub es) :
    (key, x) ∈ es ∨ ∃ raw, (key, .text raw) ∈ es ∧ x = .map [(sub, .text raw)] := by
  induction es using expanded.induct with
  | case1 => cases h
  | case2 k raw rest ih =>
    rcases List.mem_cons.mp h with heq | h
    · obtain ⟨rfl, rfl⟩ := Prod.mk.inj heq
      exact .inr ⟨raw, List.mem_cons_self, rfl⟩
    · exact (ih h).imp (List.mem_cons_of_mem _) fun ⟨raw, hraw, hx⟩ =>
        ⟨raw, List.mem_cons_of_mem _ hraw, hx⟩
  | case3 e rest hplain ih =>
    rw [expanded.eq_3 sub e rest hplain] at h
    rcases List.mem_cons.mp h with rfl | h
    · exact .inl List.mem_cons_self
    · exact (ih h).imp (List.mem_cons_of_mem _) fun ⟨raw, hraw, hx⟩ =>
        ⟨raw, List.mem_cons_of_mem _ hraw, hx⟩

theorem get?_expanded (sub key : String) (es : List (String × Data)) :
    (Keyed.get? key (expanded sub es)).isSome = (Keyed.get? key es).isSome :=
  Keyed.has_eq_of_keys_eq (keys_expanded sub es) key

/-- Spelling bare texts out leaves what is inserted, if it is no text. -/
theorem expanded_insert (sub key : String) {y : Data} (hy : ∀ s, y ≠ .text s)
    (es : List (String × Data)) :
    expanded sub (Keyed.insert key y es) = Keyed.insert key y (expanded sub es) := by
  have hentry (rest : List (String × Data)) :
      expanded sub ((key, y) :: rest) = (key, y) :: expanded sub rest := by
    cases y with
    | text s => exact absurd rfl (hy s)
    | _ => rfl
  induction es with
  | nil => exact hentry []
  | cons e rest ih =>
    obtain ⟨k, v⟩ := e
    -- whether a text is put into a field does not depend on where its entry stands
    have hcons (others : List (String × Data)) : ∃ w,
        expanded sub ((k, v) :: others) = (k, w) :: expanded sub others ∧
          expanded sub ((k, v) :: rest) = (k, w) :: expanded sub rest ∧
          expanded sub ((key, y) :: (k, v) :: rest) =
            (key, y) :: (k, w) :: expanded sub rest := by
      rw [hentry]
      cases v with
      | text s => exact ⟨_, rfl, rfl, rfl⟩
      | _ => exact ⟨_, rfl, rfl, rfl⟩
    obtain ⟨w, hothers, hrest, hfirst⟩ := hcons (Keyed.insert key y rest)
    rw [hrest]
    simp only [Keyed.insert]
    split_ifs
    · rw [hentry]
    · rw [hfirst]
    · rw [hothers, ih]

/-- The data that a field is bound from by its shape: among the entries of a map of records, bare
    texts are put into a field. -/
def taken (d : Directives) (target : Value) (x : Data) : Data :=
  match d.string?, x, target with
  | some sub, .map es, .map e _ => if e.isRecord then .map (expanded sub es) else .map es
  | _, x, _ => x

theorem taken_text (d : Directives) (target : Value) (raw : String) :
    taken d target (.text raw) = .text raw := by
  unfold taken
  split
  · contradiction
  · rfl

/-- A field whose tag names a factory is filled by it. -/
theorem field_factory {name : String} {f : Factory} (hd : d.factory? = some name)
    (hf : context.factories.get? name = some f) (x : Data) (target : Value) :
    field context deeper document d x target = deeper.fill f document x target := by
  unfold field
  rw [hd]
  simp only [hf]

/-- A field whose tag names a factory that does not exist is refused. -/
theorem field_unknownFactory {name : String} (hd : d.factory? = some name)
    (hf : context.factories.get? name = none) (x : Data) (target : Value) :
    field context deeper document d x target = Walk.fail (.unknownFactory name) := by
  unfold field
  rw [hd]
  simp only [hf]

/-- A bare text is bound as a record of one field. -/
theorem field_bare {sub : String} (hfactory : d.factory? = none) (hstring : d.string? = some sub)
    (raw : String) (variant : Option Variant) (slots : Slots) :
    field context deeper document d (.text raw) (.record variant slots) = (do
      let filled ← recordInside context deeper document [(sub, .text raw)] slots
      pure (.record variant filled)) := by
  unfold field
  rw [hfactory, hstring]
  rfl

/-- Whether data is a bare text that stands for a record. -/
def IsBare (d : Directives) (target : Value) (x : Data) : Prop :=
  ∃ sub raw variant slots,
    d.string? = some sub ∧ x = .text raw ∧ target = .record variant slots

/-- What no factory fills is bound as a value, if it is no bare text for a record. -/
theorem field_value (hfactory : d.factory? = none) {x : Data} (hbare : ¬ IsBare d target x) :
    field context deeper document d x target =
      value context deeper document d (taken d target x) target := by
  unfold field taken
  rw [hfactory]
  cases hstring : d.string? with
  | none => rfl
  | some sub =>
    cases x with
    | text raw =>
      cases target with
      | record variant slots => exact absurd ⟨sub, raw, variant, slots, hstring, rfl, rfl⟩ hbare
      | _ => rfl
    | map es =>
      cases target with
      | map e old =>
        simp only
        split <;> rfl
      | _ => rfl
    | _ => rfl

/-- What is no pattern for documents is bound by its shape, after its checks. -/
theorem value_outcome (h : deeper.Approximates deeper) {x : Data}
    (hx : ∀ s, x = .text s → d.isLoadable = false) :
    (value context deeper document d x target).outcome = (do
      checkValue d x
      if d.isPath then existingPath context document x target
      else (deeper.assign document x target).outcome) := by
  have hrest (_ : Unit) : Walk.Approximates
      (if d.isPath then Walk.lift (existingPath context document x target)
        else deeper.assign document x target)
      (if d.isPath then Walk.lift (existingPath context document x target)
        else deeper.assign document x target) := by
    split
    · exact .lift _
    · exact h.assign _ _ _
  have hplain : (value context deeper document d x target).outcome = (do
      Walk.lift (checkValue d x)
      if d.isPath then Walk.lift (existingPath context document x target)
      else deeper.assign document x target : Walk Value).outcome := by
    cases x with
    | text s => simp [value, hx s rfl]
    | _ => rfl
  rw [hplain, Walk.outcome_bind hrest, Walk.outcome_lift]
  congr 1
  funext _
  split
  · exact Walk.outcome_lift _
  · rfl

/-- A field whose data has something inside is bound by its shape, after its checks. -/
theorem field_outcome (h : deeper.Approximates deeper) (hfactory : d.factory? = none) {x : Data}
    (hx : x.isScalar = false) :
    (field context deeper document d x target).outcome = (do
      checkValue d (taken d target x)
      if d.isPath then existingPath context document (taken d target x) target
      else (deeper.assign document (taken d target x) target).outcome) := by
  have htaken : (taken d target x).isScalar = false := by
    unfold taken
    split
    · split <;> rfl
    · exact hx
  have htext : ∀ s, taken d target x = .text s → d.isLoadable = false := by
    intro s hs
    rw [hs] at htaken
    simp [Data.isScalar] at htaken
  have hbare : ¬ IsBare d target x := by
    rintro ⟨_, raw, _, _, -, rfl, -⟩
    simp [Data.isScalar] at hx
  rw [field_value hfactory hbare, value_outcome h htext]

/-- The check of the texts that are allowed. -/
def allowedCheck (d : Directives) (x : Data) : Except Cause Unit :=
  match d.allowed? with
  | none => .ok ()
  | some allowed =>
    match x with
    | .text s => if s ∈ allowed then .ok () else .error (.notAllowed s allowed)
    | _ => .error (mismatch "string" x)

/-- The check of the keys of which one must be there. -/
def presenceCheck (d : Directives) (x : Data) : Except Cause Unit :=
  match d.keys? with
  | none => .ok ()
  | some keys =>
    match x with
    | .map es => if keys.any (Keyed.has · es) then .ok () else .error (.keysMissing keys)
    | _ => .error (mismatch "map" x)

/-- A value is checked for its texts first, and for its keys then. -/
theorem checkValue_eq (x : Data) :
    checkValue d x = allowedCheck d x >>= fun _ => presenceCheck d x := by
  unfold checkValue allowedCheck presenceCheck
  cases d.allowed? with
  | none => rfl
  | some allowed =>
    cases x with
    | text s =>
      simp only
      split <;> rfl
    | _ => rfl

theorem documentName?_of_directives {f : Field} {d : Directives} (h : directives f = .ok d) :
    f.documentName? = some (documentName f d) := by
  cases hread : Directives.read f.tag with
  | error key => simp [directives, hread] at h
  | ok d' =>
    obtain rfl : d' = d := by simpa [directives, hread] using h
    simp [Field.documentName?, documentName, hread]

/-- The name that the tag gives a field is the one that it has in documents. -/
theorem documentName_eq {f : Field} {d : Directives} {name : String}
    (hname : f.documentName? = some name) (hd : directives f = .ok d) : documentName f d = name :=
  Option.some.inj ((documentName?_of_directives hd).symm.trans hname)

theorem present?_insert {y : Data} (hy : y ≠ .null) (name : String) (es : List (String × Data)) :
    present? name (Keyed.insert name y es) = some y := by
  have hnull : y.isNull = false := by
    cases y <;> first | rfl | exact absurd rfl hy
  simp [present?, hnull]

/-- A slot does not depend on what is under other names. -/
theorem slotOutcome_insert_of_ne {f : Field} {name key : String} (hf : f.documentName? = some name)
    (hne : name ≠ key) (y : Data) (es : List (String × Data)) (target : Value) :
    slotOutcome context deeper document (Keyed.insert key y es) f target =
      slotOutcome context deeper document es f target := by
  apply slotOutcome_congr
  intro d hd
  rw [documentName_eq hf hd, present?, present?, Keyed.get?_insert_of_ne hne]

theorem isOrdered_taken {x : Data} (hx : x.IsOrdered) : (taken d target x).IsOrdered := by
  unfold taken
  split
  · next es e _ _ =>
    have hes : Keyed.Ordered es := hx es rfl
    split
    · rintro _ ⟨rfl⟩
      rwa [Keyed.ordered_iff_keys, keys_expanded, ← Keyed.ordered_iff_keys]
    · exact hx
  · exact hx

/-- What a tag takes has the same places as the data in the document. -/
theorem child?_taken {x y : Data} {t : Step} (hy : Data.child? t x = some y) :
    ∃ y', Data.child? t (taken d target x) = some y' := by
  unfold taken
  split
  · next sub es e _ _ =>
    split
    · cases t with
      | key key =>
        have hget : Keyed.get? key es = some y := hy
        have hsome : (Keyed.get? key (expanded sub es)).isSome = true := by
          rw [get?_expanded, hget]
          rfl
        exact Option.isSome_iff_exists.mp hsome
      | index i => simp [Data.child?] at hy
    · exact ⟨y, hy⟩
  · exact ⟨y, hy⟩

/-- What a value is checked for does not depend on what is inside of what it holds. -/
theorem checkValue_setChild {x y : Data} (hx : x.IsOrdered) {t : Step}
    (hy : Data.child? t x = some y) (z : Data) :
    checkValue d (Data.setChild t z x) = checkValue d x := by
  cases x with
  | map es =>
    cases t with
    | key key =>
      have hhas (k : String) : Keyed.has k (Keyed.insert key z es) = Keyed.has k es :=
        Keyed.has_eq_of_keys_eq ((hx es rfl).keys_insert hy z) k
      simp [Data.setChild, checkValue, hhas, mismatch, Data.kind]
    | index i => rfl
  | list xs => cases t <;> simp [Data.setChild, checkValue, mismatch, Data.kind]
  | _ => rfl

theorem existingPath_of_not_isScalar {x : Data} (hx : x.isScalar = false) :
    ∃ cause, existingPath context document x target = .error cause := by
  cases x with
  | map es => exact ⟨_, rfl⟩
  | list xs => exact ⟨_, rfl⟩
  | _ => simp [Data.isScalar] at hx

/-- What is inside of data that is no scalar does not matter to a check for a path. -/
theorem existingPath_setChild {x : Data} (hx : x.isScalar = false) (t : Step) (z : Data) :
    existingPath context document (Data.setChild t z x) target =
      existingPath context document x target := by
  cases x with
  | map es => cases t <;> rfl
  | list xs => cases t <;> rfl
  | _ => simp [Data.isScalar] at hx

end Binding

end Testbed

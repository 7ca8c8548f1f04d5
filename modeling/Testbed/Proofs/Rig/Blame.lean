import Testbed.Proofs.Binding.Comparing
import Testbed.Proofs.Rig.Kinds

/-!
# What a configuration fails for

Where documents and overwrites do not come to a configuration, it is they that are to blame and not
the declarations of the rig: binding keeps to what tags ask for, and an overwrite reads only tags
that can be read and finds no list inside a list (`root_of_resolve`).
-/

namespace Testbed

/-! ## §1 Walks -/

namespace Walk

variable {α β : Type} {w : Walk α} {f : α → Walk β}

/-- Whether whatever stops a walk does not blame the declarations. -/
def Blameless (w : Walk α) : Prop :=
  ∀ l e m, w l = .error e m → e.root.blamesSchema = false

namespace Blameless

theorem pure (x : α) : Blameless (Pure.pure x) := by
  rintro l e m ⟨⟩

theorem modify (move : Location → Location) : Blameless (modify move : Walk Unit) := by
  rintro l e m ⟨⟩

theorem fail {cause : Cause} (h : cause.blamesSchema = false) :
    Blameless (Walk.fail cause : Walk α) := by
  rintro l e m ⟨⟩
  exact h

theorem lift {x : Except Cause α} (h : Testbed.Blameless x) : Blameless (Walk.lift x) := by
  cases x with
  | ok a => exact pure a
  | error cause => exact fail (h cause rfl)

/-- What is walked next begins where something was given before. -/
theorem bind (hw : Blameless w) (hf : ∀ x l m, w l = .ok x m → Blameless (f x)) :
    Blameless (w >>= f) := by
  intro l e m h
  simp only [Bind.bind, EStateM.bind] at h
  split at h
  · next x k hx => exact hf x l k hx k e m h
  · next he =>
    cases h
    exact hw l _ _ he

theorem located (document : Path) (hw : Blameless w) : Blameless (w.located document) := by
  intro l e m h
  simp only [Walk.located] at h
  split at h
  · cases h
  · next he =>
    cases h
    rw [Error.root_locate]
    exact hw l _ _ he

theorem insideMap (hw : Blameless w) : Blameless w.insideMap :=
  bind (modify _) fun _ _ _ _ => hw.bind fun x _ _ _ => bind (modify _) fun _ _ _ _ => pure x

end Blameless

end Walk

namespace Binding

open Walk

variable {context : Context} {deeper : Deeper} {document : Path} {slots : Slots} {fs : Fields}

/-- The check of keys blames the data, where the tags are sound. -/
theorem checkKeys_blameless (h : Value.SlotsBuilt slots fs) (hsound : soundFields fs = true)
    (es : List (String × Data)) : (checkKeys document es slots).Blameless := by
  refine .bind (.located _ (.lift (documentNames_blameless h hsound))) fun names _ _ _ => ?_
  split
  · exact .pure _
  · exact .bind (.modify _) fun _ _ _ _ => .located _ (.fail rfl)

/-- What is inside of a record is bound blamelessly where its fields are. -/
theorem recordInside_blameless {es : List (String × Data)} (h : Value.SlotsBuilt slots fs)
    (hsound : soundFields fs = true)
    (hfields : (fields context deeper document es slots).Blameless) :
    (recordInside context deeper document es slots).Blameless := by
  unfold recordInside
  apply Walk.Blameless.insideMap
  cases context.strict with
  | false => exact hfields
  | true => exact (checkKeys_blameless h hsound es).bind fun _ _ _ _ => hfields

end Binding

/-- Where tags are sound, no walk blames the declarations. A walk is compared with itself here. -/
def Place.blamelessness (context : Context) : Comparison context context.strict where
  Compares p w _ := p.IsSound → w.Blameless
  Names p w _ := p.IsSound → w.Blameless
  of_names := id
  of_pure x _ := .pure x
  of_modify move _ := .modify move
  of_fail h hp := .fail (h hp)
  located h hp := .located _ (h hp)
  bind hw hf hp := (hw hp).bind fun x l m hx => hf x l m hx hp
  bind_names hw hf hp := (hw hp).bind fun x l m hx => hf x l m hx hp
  checked hslots hfields hp := Binding.recordInside_blameless hslots hp (hfields hp)
  enters h hstep _ hp := h (hstep.isSound hp)
  loads hload _ h hp := .located _ (h ((Enters.load hload).isSound hp))

/-! ## §2 Edits inside containers -/

/-- Whether an edit succeeds, or is stopped by a cause that does not blame the declarations. -/
def After.Blameless {α : Type} (a : After Cause α) : Prop :=
  ∀ cause ∈ a.fault, cause.blamesSchema = false

/-- Whether an edit does not blame the declarations where the value is put together as they say, and
    is no list. -/
def Edit.Blameless (edit : Edit) : Prop :=
  ∀ v s, Value.Built v s → s.isTidy = true → s.isList = false → (edit v).Blameless

namespace After

variable {α β : Type}

theorem blameless_done (x : α) : (done x : After Cause α).Blameless := by
  rintro cause ⟨⟩

theorem blameless_failed {cause : Cause} (h : cause.blamesSchema = false) (x : α) :
    (failed cause x).Blameless := by
  rintro _ ⟨⟩
  exact h

theorem Blameless.map {a : After Cause α} (h : a.Blameless) (f : α → β) : (a.map f).Blameless :=
  h

end After

namespace Segment

theorem read_blameless (raw : String) : Blameless (read raw) := by
  unfold read
  split
  · split
    · exact blameless_error rfl
    · exact blameless_ok _
  · exact blameless_error rfl

/-- A route that cannot be read is at fault itself. -/
theorem readRoute_blameless (route : String) : Blameless (readRoute route) := by
  unfold readRoute
  split
  · exact blameless_ok _
  · exact blameless_mapM read_blameless _

end Segment

namespace Value

open After

variable {edit : Edit} {v : Value} {s e : Shape}

theorem editKey_blameless {entries : List (String × Value)}
    (h : ∀ key v, (key, v) ∈ entries → (edit v).Blameless) (key : String) :
    (editKey key edit entries).Blameless := by
  induction entries with
  | nil => exact blameless_failed rfl _
  | cons entry rest ih =>
    obtain ⟨k, v⟩ := entry
    unfold editKey
    split
    · exact (h k v List.mem_cons_self).map _
    · exact (ih fun key v hv => h key v (List.mem_cons_of_mem _ hv)).map _

theorem setEntry_blameless {entries : List (String × Value)} (hzero : (edit e.zero).Blameless)
    (h : ∀ key v, (key, v) ∈ entries → (edit v).Blameless) (key : String) :
    (setEntry e key edit entries).Blameless := by
  unfold setEntry
  split
  · exact editKey_blameless h key
  · simp only
    split
    · exact blameless_done _
    · next cause hcause => exact blameless_failed (hzero cause hcause) _

theorem editItem_blameless {items : List Value} (h : ∀ v ∈ items, (edit v).Blameless)
    (index length i : Nat) : (editItem index length edit i items).Blameless := by
  induction items generalizing i with
  | nil => cases i <;> exact blameless_failed rfl _
  | cons v rest ih =>
    cases i with
    | zero => exact (h v List.mem_cons_self).map _
    | succ i => exact (ih (fun v hv => h v (List.mem_cons_of_mem _ hv)) i).map _

/-- The tags of tidy fields can be read. -/
theorem editSlot_blameless {slots : Slots} {fs : Fields} (hslots : SlotsBuilt slots fs)
    (ht : tidyFields fs = true)
    (h : ∀ v s, Built v s → s.isTidy = true → (edit v).Blameless) (name : String) :
    (editSlot name edit slots).Blameless := by
  induction slots generalizing fs with
  | nil => exact blameless_failed rfl _
  | cons slot rest ih =>
    cases hslots with
    | @cons field v s _ fs hv hslots =>
      obtain ⟨hname, -, -, hs, hrest⟩ := tidyFields_cons.mp ht
      unfold editSlot
      split
      · next key hread => simp [Field.documentName?, hread] at hname
      · split
        · split
          · exact blameless_failed rfl _
          · exact (h v s hv hs).map _
        · exact (ih hslots hrest).map _

theorem editIndexed_blameless (hedit : edit.Blameless) (segment : Segment) (hv : Built v s)
    (hs : s.isTidy = true) : (editIndexed segment edit v).Blameless := by
  unfold editIndexed
  split
  · next e items =>
    cases hv with
    | list hitems =>
      simp only [Shape.isTidy, Bool.and_eq_true, Bool.not_eq_true'] at hs
      split
      · -- the items of a list are no lists
        exact (editItem_blameless (fun v hv => hedit v e (hitems v hv) hs.2 hs.1) _ _ _).map _
      · exact blameless_failed rfl _
  · next hlist =>
    split
    · exact blameless_failed rfl _
    · apply hedit v s hv hs
      cases hv with
      | list _ => exact absurd rfl (hlist _ _)
      | _ => rfl

/-! ## §3 Overwrites -/

theorem setScalar_blameless (raw : String) (v : Value) : (setScalar raw v).Blameless := by
  unfold setScalar
  split
  · exact blameless_done _
  · split
    · split
      · exact blameless_done _
      · exact blameless_failed rfl _
    · exact blameless_failed rfl _
    · exact blameless_failed rfl _
    · exact blameless_failed rfl _
  · split
    · split
      · exact blameless_done _
      · exact blameless_failed rfl _
    · exact blameless_failed rfl _
  · exact blameless_failed rfl _

/-- Setting at segments blames the segments or the text, by induction on the segments. -/
theorem setAt_blameless (raw : String) (segments : List Segment) :
    Edit.Blameless (setAt raw segments) := by
  induction segments with
  | nil =>
    -- lists are edited behind an index, so here the value is no list
    intro v s hv hs hlist
    unfold setAt
    split
    · exact blameless_failed rfl _
    · exact blameless_failed rfl _
    · cases hv
      cases hlist
    · exact setScalar_blameless raw v
  | cons segment rest ih =>
    intro v s hv hs hlist
    have hedit (v : Value) (s : Shape) (hv : Built v s) (hs : s.isTidy = true) :=
      editIndexed_blameless ih segment hv hs
    unfold setAt
    -- no slot of a tidy record is hidden, and whatever else fails is in the segment or in the text
    split
    · next variant slots =>
      refine After.Blameless.map ?_ _
      cases hv with
      | record hslots => exact editSlot_blameless hslots hs hedit _
      | @member variant _ hslots =>
        exact editSlot_blameless hslots (Rig.variant_tidy variant) hedit _
    · next e entries =>
      cases hv with
      | map horder hentries =>
        have heach : ∀ key v, (key, v) ∈ entries →
            (editIndexed segment (setAt raw rest) v).Blameless :=
          fun key v hmem => hedit v e (hentries key v hmem) hs
        simp only
        split
        · exact (setEntry_blameless (hedit e.zero e (built_zero e) hs) heach _).map _
        · exact (editKey_blameless heach _).map _
    · cases hv
      cases hlist
    · exact blameless_failed rfl _

/-- An overwrite of a configuration blames its route or its text. -/
theorem overwrite_blameless (hv : Built v (.record Rig.config)) {route raw : String} {e : Error}
    (h : (overwrite route raw v).fault = some e) : e.root.blamesSchema = false := by
  unfold overwrite at h
  cases hread : Segment.readRoute route with
  | error cause =>
    simp only [hread] at h
    cases h
    exact Segment.readRoute_blameless route cause hread
  | ok segments =>
    simp only [hread, Option.map_eq_some_iff] at h
    obtain ⟨cause, hcause, rfl⟩ := h
    exact setAt_blameless raw segments v _ hv Rig.config_tidy rfl cause hcause

/-- What is overwritten first leaves a value put together as before for what comes next. -/
theorem overwriteAll_blameless (hv : Built v (.record Rig.config)) {pairs : List (String × String)}
    {e : Error} (h : (overwriteAll pairs v).fault = some e) : e.root.blamesSchema = false := by
  induction pairs generalizing v with
  | nil => cases h
  | cons p rest ih =>
    obtain ⟨route, raw⟩ := p
    rw [overwriteAll] at h
    cases hfault : (overwrite route raw v).fault with
    | some fault =>
      simp only [hfault, Option.some.injEq] at h
      subst h
      exact overwrite_blameless hv hfault
    | none =>
      simp only [hfault] at h
      have hmade : overwritten? (route, raw) v = some (overwrite route raw v).value := by
        simp [overwritten?, After.toOption, hfault]
      exact ih (Rig.built_of_overwritten? hv hmade) h

end Value

namespace Rig

open Value

/-! ## §4 Resolving -/

variable {context : Context} {documents : List Document} {overwrites : List (String × String)}
  {e : Error}

/-- A document that is refused is at fault itself, or one that it names. -/
theorem bindDocument_blameless (hfactories : context.factories = .standard) {d : Document}
    (h : bindDocument context d = .error e) : e.root.blamesSchema = false := by
  have hinside : Walk.Blameless (Binding.recordInside context (Deeper.level context maxDepth) d.path
      d.entries (Fields.zero config)) :=
    (Place.blamelessness context).record hfactories d d.entries (slotsHave_zero config).built
      maxDepth config_sound
  have hwalk := hinside.bind fun filled _ _ _ => .pure (Value.record none filled)
  unfold bindDocument Walker.config Walker.run at h
  simp only at h
  split at h
  · cases h
  · next herror =>
    cases h
    exact hwalk _ _ _ herror

/-- Whatever documents and overwrites are resolved, strict or not, and whatever files stand around
    them: an error does not blame the declarations. -/
theorem root_of_resolve (hfactories : context.factories = .standard)
    (h : resolve context documents overwrites = .error e) : e.root.blamesSchema = false := by
  cases hconfigs : documents.mapM (bindDocument context) with
  | error fault =>
    rw [resolve, hconfigs] at h
    cases h
    obtain ⟨d, -, hd⟩ := exists_mem_of_mapM_error hconfigs
    exact bindDocument_blameless hfactories hd
  | ok configs =>
    cases hmerged : mergeAll? configs with
    | none =>
      rw [resolve, hconfigs, ok_bind, hmerged] at h
      cases h
      rfl
    | some c =>
      -- without overwrites the documents come to what they merge into
      have hresolve : resolve context documents [] = .ok c := by
        rw [resolve, hconfigs, ok_bind, hmerged]
        rfl
      have hbuilt := (filed_of_resolve hfactories hresolve).built
      rw [resolve, hconfigs, ok_bind, hmerged] at h
      simp only at h
      split at h
      · cases h
      · next hfault =>
        cases h
        exact overwriteAll_blameless hbuilt hfault

/-- A route that leads to a list and says nothing of an index. -/
theorem root_of_resolve_instances :
    let documents := [⟨"main.yaml", [("spec", .map [("instances", .list [.map []])])]⟩]
    ∃ e, resolve withoutFiles documents [("spec.instances", "1")] = .error e ∧
      e.root = .indexRequired "instances" ∧ e.root.blamesSchema = false := by
  intro documents
  have hsome : ((error? (resolve withoutFiles documents [("spec.instances", "1")])).map
      Error.root) = some (.indexRequired "instances") := by decide +kernel
  obtain ⟨e, he, hroot⟩ := Option.map_eq_some_iff.mp hsome
  have herror := error_of_error?_eq_some he
  exact ⟨e, herror, hroot, root_of_resolve rfl herror⟩

end Rig

end Testbed

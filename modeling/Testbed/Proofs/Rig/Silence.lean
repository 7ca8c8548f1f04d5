import Testbed.Proofs.Rig.Joined

/-!
# Documents that say nothing

Configurations can be grouped freely when they are merged, and the empty configuration changes
nothing. A document that says nothing is not bound to the empty configuration: the version takes its
default (`bindDocument_silent`). But every document gives that version, or is refused, and merging
keeps it. So what a document that says nothing is bound to changes no configuration of the documents
around it, and the document can be left out (`resolve_silent`).
-/

namespace Testbed

namespace Rig

open Value Binding Walk

variable {context : Context} {c c' : Value} {configs : List Value}

/-- All fields of a configuration are joined when configurations are merged. -/
theorem config_joined : (Shape.record config).isJoined = true := by
  decide

/-! ## §1 What a document that says nothing is bound to -/

/-- The fields of a configuration besides its version. -/
def otherFields : Fields := config.tail

/-- The configuration that has a version and nothing else. -/
def blank : Value :=
  .record none ((versionField, .text "0.1") :: Fields.zero otherFields)

/-- The other fields have no defaults. -/
theorem otherFields_free :
    ∀ e ∈ otherFields, ∃ d, directives e.1 = .ok d ∧ d.default? = none ∧ e.2.zero ≠ .absent := by
  iterate 5 refine List.forall_mem_cons.mpr ⟨⟨_, rfl, rfl, nofun⟩, ?_⟩
  simp

/-- Where there is no data, fields without defaults hold their zero values. -/
theorem slots_nil {deeper : Deeper} {document : Path} {fs : Fields}
    (h : ∀ e ∈ fs, ∃ d, directives e.1 = .ok d ∧ d.default? = none ∧ e.2.zero ≠ .absent) :
    ((Fields.zero fs).mapM fun s =>
      (s.1, ·) <$> slotOutcome context deeper document [] s.1 s.2) = .ok (Fields.zero fs) := by
  induction fs with
  | nil => rfl
  | cons e rest ih =>
    obtain ⟨⟨d, hread, hdefault, habsent⟩, hrest⟩ := List.forall_mem_cons.mp h
    have hslot : slotOutcome context deeper document [] e.1 e.2.zero = .ok e.2.zero := by
      rw [slotOutcome_absent hread habsent rfl, fields.absentField, hdefault,
        (built_zero e.2).reset_eq]
    show List.mapM _ ((e.1, e.2.zero) :: Fields.zero rest) = _
    rw [List.mapM_cons, hslot, ih hrest]
    rfl

/-- A document that says nothing is bound to the configuration that has a version alone. -/
theorem bindDocument_silent (context : Context) (path : Path) :
    bindDocument context ⟨path, []⟩ = .ok blank := by
  apply ok_of_toOption_eq_some
  have hlevel : (Deeper.level context maxDepth).Approximates (Deeper.level context maxDepth) :=
    Deeper.level_self maxDepth
  have houtcome : whole.outcome context path (maxDepth + 1) (.map []) =
      (assign context (Deeper.level context maxDepth) path (.map [])
        (.record none (Fields.zero config))).outcome := rfl
  have hkeys : keysCheck context path [] (Fields.zero config) = .ok () := by
    rw [keysCheck]
    split
    · have hnames := documentNames_of_slotsHave (slotsHave_zero config) config_tidy
      exact (checkKeys_ok_iff hnames).mpr (by simp)
    · rfl
  have hversion : slotOutcome context (Deeper.level context maxDepth) path [] versionField
      (.text "") = .ok (.text "0.1") :=
    slotOutcome_absent directives_versionField (by simp) rfl
  have hconfig : Fields.zero config = (versionField, .text "") :: Fields.zero otherFields := rfl
  rw [bindDocument_toOption, Document.data, houtcome, assign_record_outcome_checked hlevel, hkeys,
    hconfig, List.mapM_cons, hversion, slots_nil otherFields_free]
  rfl

/-! ## §2 Configurations of one version -/

/-- Whether a configuration is put together as declared and of the version that there is. -/
structure Versioned (c : Value) : Prop where
  built : Built c (.record config)
  version : c.slot? "version" = some (.text "0.1")

/-- Two configurations with the version are merged into one with it. -/
theorem Versioned.merge (h : Versioned c) (h' : Versioned c') : Versioned (c.merge c') :=
  ⟨h.built.merge config_fixed h'.built, version_merge h.built h'.built h.version h'.version⟩

/-- What a document is bound to has the version, given or by default. -/
theorem versioned_of_bindDocument {d : Document} (h : bindDocument context d = .ok c) :
    Versioned c :=
  ⟨built_of_bindDocument h, version_of_bindDocument h⟩

theorem Versioned.exists_slots (h : Versioned c) :
    ∃ slots, c = .record none ((versionField, .text "0.1") :: slots) ∧
      SlotsBuilt slots otherFields := by
  obtain ⟨hbuilt, hversion⟩ := h
  cases hbuilt with
  | record hslots =>
    cases hslots with
    | cons hv hrest =>
      obtain rfl := Option.some.inj hversion
      exact ⟨_, rfl, hrest⟩

/-- Merging into a configuration that says nothing but the version gives what is merged. -/
theorem Versioned.blank_merge (h : Versioned c) : blank.merge c = c := by
  obtain ⟨slots, rfl, hslots⟩ := h.exists_slots
  have hrest := hslots.zero_merge (by decide)
  simp only [blank, Value.merge, mergeSlots, hrest]
  rfl

/-- Merging in a configuration that says nothing but the version changes nothing. -/
theorem Versioned.merge_blank (h : Versioned c) : c.merge blank = c := by
  obtain ⟨slots, rfl, hslots⟩ := h.exists_slots
  have hrest := hslots.merge_zero (by decide)
  simp only [blank, Value.merge, mergeSlots, hrest]
  rfl

/-- Merging any number of configurations keeps the version. -/
theorem Versioned.foldl {others : List Value} (h : Versioned c)
    (hothers : ∀ c' ∈ others, Versioned c') : Versioned (others.foldl Value.merge c) :=
  List.foldlRecOn others Value.merge h fun _ hc c' hc' => hc.merge (hothers c' hc')

/-- The blank configuration can be left out, wherever it stands among others. -/
theorem mergeAll?_blank {before after : List Value} (hbefore : ∀ c ∈ before, Versioned c)
    (hafter : ∀ c ∈ after, Versioned c) (h : before ++ after ≠ []) :
    mergeAll? (before ++ blank :: after) = mergeAll? (before ++ after) := by
  cases before with
  | nil =>
    cases after with
    | nil => exact absurd rfl h
    | cons first others =>
      obtain ⟨hfirst, -⟩ := List.forall_mem_cons.mp hafter
      simp only [List.nil_append, mergeAll?, List.foldl_cons, hfirst.blank_merge]
  | cons first others =>
    obtain ⟨hfirst, hothers⟩ := List.forall_mem_cons.mp hbefore
    simp only [List.cons_append, mergeAll?, List.foldl_append, List.foldl_cons,
      (hfirst.foldl hothers).merge_blank]

/-! ## §3 Resolving -/

theorem versioned_of_mapM {documents : List Document}
    (h : documents.mapM (bindDocument context) = .ok configs) : ∀ c ∈ configs, Versioned c := by
  intro c hc
  obtain ⟨d, -, hd⟩ := exists_mem_of_mapM h c hc
  exact versioned_of_bindDocument hd

/-- Configurations can be grouped freely when they are merged, the empty one changes nothing, and
    a document that says nothing can be left out. -/
theorem resolve_silent (context : Context) :
    (∀ c c' c'', Built c (.record config) → Built c' (.record config) →
      Built c'' (.record config) → (c.merge c').merge c'' = c.merge (c'.merge c'')) ∧
    (∀ c, Built c (.record config) → emptyConfig.merge c = c ∧ c.merge emptyConfig = c) ∧
    ∀ before after path overwrites, before ++ after ≠ [] →
      resolve context (before ++ ⟨path, []⟩ :: after) overwrites =
        resolve context (before ++ after) overwrites := by
  refine ⟨?_, ?_, ?_⟩
  · intro c c' c'' h h' h''
    exact h.merge_assoc config_fixed h' h''
  · intro c h
    exact ⟨h.zero_merge config_fixed, h.merge_zero config_joined⟩
  · intro before after path overwrites hne
    rw [resolve, resolve, mapM_append_cons, List.mapM_append, bindDocument_silent]
    cases hbefore : before.mapM (bindDocument context) with
    | error e => rfl
    | ok configs =>
      cases hafter : after.mapM (bindDocument context) with
      | error e => rfl
      | ok configs' =>
        have hconfigs : configs ++ configs' ≠ [] := by
          intro hnil
          have hlength := congrArg List.length hnil
          rw [List.length_append, length_of_mapM hbefore, length_of_mapM hafter,
            ← List.length_append] at hlength
          exact hne (List.length_eq_zero_iff.mp hlength)
        have hsame := mergeAll?_blank (versioned_of_mapM hbefore) (versioned_of_mapM hafter)
          hconfigs
        simp only [ok_bind, pure_bind, hsame]

/-- A document that says nothing, after one with a server. -/
theorem resolve_silent_serving :
    ∃ c, resolve withoutFiles [serving "web"] [] = .ok c ∧
      resolve withoutFiles [serving "web", ⟨"empty.yaml", []⟩] [] = .ok c ∧
      emptyConfig.merge c = c ∧ c.merge emptyConfig = c ∧
      (c.merge c).merge c = c.merge (c.merge c) := by
  obtain ⟨hassoc, hempty, hleft⟩ := resolve_silent withoutFiles
  have hsome : (resolve withoutFiles [serving "web"] []).toOption.isSome = true := by
    decide +kernel
  obtain ⟨c, hc⟩ := Option.isSome_iff_exists.mp hsome
  have hresolve := ok_of_toOption_eq_some hc
  have hbuilt : Built c (.record config) :=
    resolve_induction (fun _ _ _ hc => built_of_bindDocument hc)
      (fun _ _ h h' => h.merge config_fixed h') (by simp) hresolve
  obtain ⟨hbefore, hafter⟩ := hempty c hbuilt
  have hsame := hleft [serving "web"] [] "empty.yaml" [] (by simp)
  exact ⟨c, hresolve, hsame.trans hresolve, hbefore, hafter, hassoc c c c hbuilt hbuilt hbuilt⟩

end Rig

end Testbed

import Testbed.Proofs.Binding.Parts
import Testbed.Rig.View

/-!
# What sandboxes and environments are filed under

Sandboxes and environments are filed under the names of their platforms. Whatever a document holds
under the name of a platform, the member of the family that is made from it is the one for the
platform, with one exception: from null comes the member that the family starts with. Merging takes
over entries as wholes, and an overwrite changes no member into another. So an entry of a resolved
configuration is of the kind that it is filed under, or it is common and a document has null there
(`resolve_kinds`).
-/

namespace Testbed

theorem Platform.name_of_ofName? {key : String} {p : Platform} (h : ofName? key = some p) :
    p.name = key := by
  unfold ofName? at h
  split at h <;> cases h <;> rfl

/-- Whether null stands under a key of the map that data has under a name. -/
def Data.NullUnder (name key : String) (x : Data) : Prop :=
  ∃ es, child? (.key name) x = some (.map es) ∧ (key, .null) ∈ es

namespace Rig

open Value Binding

/-! ## §1 Records of a configuration -/

theorem spec_tidy : tidyFields spec = true := by
  have hspec : (⟨"Config", "spec", "spec"⟩, .record spec) ∈ config :=
    List.mem_of_getElem? (i := 5) rfl
  simpa [Shape.isTidy] using isTidy_of_mem config_tidy hspec

theorem instance_tidy : tidyFields instanceFields = true := by
  have hinstances : (⟨"Spec", "instances", "instances,loadable"⟩,
      .list (.record instanceFields)) ∈ spec := List.mem_of_getElem? (i := 1) rfl
  simpa [Shape.isTidy, Shape.isList] using isTidy_of_mem spec_tidy hinstances

/-- Configurations are merged without members of families being merged. -/
theorem config_fixed : (Shape.record config).isFixed = true := by
  decide

/-! ## §2 Documents -/

/-- Whether a member of a family is the one that a key names, or the common one where null stands
    under the key. -/
def Files (member : Platform → Variant) (key : String) (null : Prop) (variant : Variant) : Prop :=
  ∃ p, variant = member p ∧ (p.name = key ∨ p = .common ∧ null)

theorem Files.mono {member : Platform → Variant} {key : String} {null null' : Prop}
    {variant : Variant} (h : Files member key null variant) (hnull : null → null') :
    Files member key null' variant := by
  obtain ⟨p, hp, hname⟩ := h
  exact ⟨p, hp, hname.imp_right fun hcommon => ⟨hcommon.1, hnull hcommon.2⟩⟩

section

variable {context : Context} {document : Path} {x : Data} {v : Value}

/-- What a field that is filled by names of platforms holds under a key. -/
theorem files_of_bound (hfactories : context.factories = .standard) {slots : Slots} {fs : Fields}
    (hslots : SlotsHave slots fs) (ht : tidyFields fs = true) {f : Factory} {family : Family}
    {member : Platform → Variant} (hf : f.byName? = some (family, member)) {field : Field}
    (hmem : (field, .map (.oneOf family) []) ∈ slots)
    (hd : directives field = .ok ⟨[("factory", f.name), ("name", field.ident)]⟩)
    (h : Bound context document (.record none slots) x v) {key : String} {z : Value}
    (hz : at? [.key field.ident, .key key] v = some z) {variant : Variant}
    (hvariant : z.variant? = some variant) :
    Files member key (x.NullUnder field.ident key) variant := by
  obtain ⟨w, hw, hz⟩ := Option.bind_eq_some_iff.mp hz
  rw [at?_singleton] at hz
  obtain ⟨w', hw', hbound⟩ := h.field hslots ht hmem hd rfl
  obtain rfl : w' = w := Option.some.inj (hw'.symm.trans hw)
  rcases hbound with rfl | ⟨y, n, hy, -, hfield⟩
  · -- nothing is under a key of an empty map
    cases hz
  · have hget : context.factories.get? f.name = some f := by
      rw [hfactories]
      cases f <;> decide
    have hfill : ((Deeper.level context n).fill f document y
        (.map (.oneOf family) [])).outcome = .ok w' :=
      (Position.field_outcome_factory rfl hget _ n y).symm.trans hfield
    obtain ⟨es, x', p, rfl, hx', hp, hbound⟩ := exists_member_of_fill hf hfill hz
    have hfamily : (member p).family.first = member .common := by
      cases f <;> cases hf <;> rfl
    rcases hbound.variant? with hsame | ⟨rfl, hfirst⟩
    · exact ⟨p, Option.some.inj (hvariant.symm.trans hsame), .inl (Platform.name_of_ofName? hp)⟩
    · refine ⟨.common, ?_, .inr ⟨rfl, es, hy, hx'⟩⟩
      rw [← hfamily]
      exact Option.some.inj (hvariant.symm.trans hfirst)

/-- A sandbox is of the kind that its key names, unless null has reset it. -/
theorem files_sandbox (hfactories : context.factories = .standard)
    (h : Bound context document emptyConfig x v) {key : String} {z : Value}
    (hz : at? [.key "sandboxes", .key key] v = some z) {variant : Variant}
    (hvariant : z.variant? = some variant) :
    Files .sandbox key (x.NullUnder "sandboxes" key) variant :=
  files_of_bound hfactories (slotsHave_zero config) config_tidy (f := .sandboxes) rfl
    (List.mem_of_getElem? (i := 3) rfl) rfl h hz hvariant

/-- An environment is of the kind that its key names, unless null has reset it. -/
theorem files_environment (hfactories : context.factories = .standard)
    (h : Bound context document (Shape.record instanceFields).zero x v) {key : String} {z : Value}
    (hz : at? [.key "environments", .key key] v = some z) {variant : Variant}
    (hvariant : z.variant? = some variant) :
    Files .environment key (x.NullUnder "environments" key) variant :=
  files_of_bound hfactories (slotsHave_zero instanceFields) instance_tidy (f := .environments) rfl
    (List.mem_of_getElem? (i := 3) rfl) rfl h hz hvariant

/-- The data that a document gives for an instance: an item of its list of instances, or a document
    that is loaded by the pattern which stands for the list. -/
inductive GivesInstance (context : Context) (d : Document) : Data → Prop
  | item {xs : List Data} {x : Data}
      (hlist : Data.at? [.key "spec", .key "instances"] d.data = some (.list xs)) (hx : x ∈ xs) :
      GivesInstance context d x
  | loaded {pattern : String} {documents : List Document} {d' : Document}
      (hpattern : Data.at? [.key "spec", .key "instances"] d.data = some (.text pattern))
      (hload : Document.loadMatching context.files d.path.directory pattern = .ok documents)
      (hd' : d' ∈ documents) : GivesInstance context d d'.data

/-- Each instance of a configuration is bound from one that the document gives. -/
theorem exists_bound_instance {d : Document} {c i : Value} {j : Nat}
    (h : Bound context d.path emptyConfig d.data c)
    (hi : at? [.key "spec", .key "instances", .index j] c = some i) :
    ∃ document x, GivesInstance context d x ∧
      Bound context document (Shape.record instanceFields).zero x i := by
  -- down the three steps of the route, each value bound from what stands under its name
  obtain ⟨u, hu, w, hw, hz⟩ : ∃ u, child? (.key "spec") c = some u ∧
      ∃ w, child? (.key "instances") u = some w ∧ child? (.index j) w = some i := by
    simpa [at?, Option.bind_eq_some_iff] using hi
  have hspec : directives ⟨"Config", "spec", "spec"⟩ = .ok ⟨[("name", "spec")]⟩ := rfl
  obtain ⟨u', y, hu', hbound, hy⟩ := h.plain (slotsHave_zero config) config_tidy
    (List.mem_of_getElem? (i := 5) rfl) hspec
  obtain rfl : u' = u := Option.some.inj (hu'.symm.trans hu)
  have hinstances : directives ⟨"Spec", "instances", "instances,loadable"⟩ =
      .ok ⟨[("loadable", "true"), ("name", "instances")]⟩ := rfl
  obtain ⟨w', hw', hlist⟩ := Bound.field (slotsHave_zero spec) spec_tidy
    (List.mem_of_getElem? (i := 1) rfl) hinstances rfl hbound
  obtain rfl : w' = w := Option.some.inj (hw'.symm.trans hw)
  rcases hlist with rfl | ⟨x, n, hx, -, hlist⟩
  · -- a list that went back to zero has no items
    cases hz
  · have hat : Data.at? [.key "spec", .key "instances"] d.data = some x := by
      rcases hy with rfl | hy
      · simp [Data.child?] at hx
      · rw [Data.at?, hy, Option.bind_some, Data.at?, hx]
        rfl
    -- a pattern loads the instances, and anything else has them in line
    by_cases htext : ∃ pattern, x = .text pattern
    · obtain ⟨pattern, rfl⟩ := htext
      have hloaded : (loaded context (Deeper.level context n) d.path pattern
          (.list (.record instanceFields) [])).outcome = .ok w' := hlist
      obtain ⟨documents, d', hload, hd', hbound⟩ := exists_bound_of_loaded hloaded hz
      exact ⟨d'.path, d'.data, .loaded hat hload hd', hbound⟩
    · have hbound : Bound context d.path (.list (.record instanceFields) []) x w' :=
        bound_of_field rfl rfl rfl (fun s hs => absurd ⟨s, hs⟩ htext) hlist
      obtain ⟨xs, x', rfl, hx', hitem⟩ := hbound.item hz
      exact ⟨d.path, x', .item hat hx', hitem⟩

/-- A configuration is bound from the data of its document. -/
theorem bound_of_bindDocument {d : Document} {c : Value} (h : bindDocument context d = .ok c) :
    Bound context d.path emptyConfig d.data c := by
  have hsome : (bindDocument context d).toOption = some c := by rw [h]; rfl
  rw [bindDocument_toOption] at hsome
  exact ⟨maxDepth + 1, ok_of_toOption_eq_some hsome⟩

end

/-! ## §3 Configurations -/

/-- An overwrite keeps a value as it is put together. -/
theorem built_of_overwritten? {v v' : Value} {s : Shape} (h : Built v s) {p : String × String}
    (hv' : overwritten? p v = some v') : Built v' s := by
  rw [overwritten?, overwrite_toOption] at hv'
  obtain ⟨segments, -, hset⟩ := Option.bind_eq_some_iff.mp hv'
  obtain ⟨x, w, hleaf, hstore, rfl⟩ := setLeaf?_eq_some_iff.mp hset
  exact h.put hleaf fun e he => built_of_store? he hstore

/-- Whether the sandboxes and environments of a configuration are the ones that their keys name, or
    common ones that are filed under keys with null. -/
structure Filed (sandboxNull environmentNull : String → Prop) (c : Value) : Prop where
  built : Built c (.record config)
  sandboxes : ∀ key v variant, at? [.key "sandboxes", .key key] c = some v →
    v.variant? = some variant → Files .sandbox key (sandboxNull key) variant
  environments : ∀ j i key v variant,
    at? [.key "spec", .key "instances", .index j] c = some i →
    at? [.key "environments", .key key] i = some v →
    v.variant? = some variant → Files .environment key (environmentNull key) variant

section

variable {sandboxNull environmentNull : String → Prop} {c c' : Value}

/-- The sandboxes and environments of a document are of the kinds that their keys name, but for
    those that null has reset. -/
theorem filed_of_bindDocument {context : Context} (hfactories : context.factories = .standard)
    {d : Document} (h : bindDocument context d = .ok c) :
    Filed (d.data.NullUnder "sandboxes")
      (fun key => ∃ x, GivesInstance context d x ∧ x.NullUnder "environments" key) c := by
  have hbound := bound_of_bindDocument h
  refine ⟨hbound.built isConfig_empty.built, ?_, ?_⟩
  · intro key v variant hv hvariant
    exact files_sandbox hfactories hbound hv hvariant
  · intro j i key v variant hi hv hvariant
    obtain ⟨document, x, hx, hinstance⟩ := exists_bound_instance hbound hi
    exact (files_environment hfactories hinstance hv hvariant).mono fun hnull => ⟨x, hx, hnull⟩

/-- A configuration that is filed but for some keys is so but for more. -/
theorem Filed.mono {sandboxNull' environmentNull' : String → Prop}
    (h : Filed sandboxNull environmentNull c)
    (hsandbox : ∀ key, sandboxNull key → sandboxNull' key)
    (henvironment : ∀ key, environmentNull key → environmentNull' key) :
    Filed sandboxNull' environmentNull' c where
  built := h.built
  sandboxes key v variant hv hvariant :=
    (h.sandboxes key v variant hv hvariant).mono (hsandbox key)
  environments j i key v variant hi hv hvariant :=
    (h.environments j i key v variant hi hv hvariant).mono (henvironment key)

/-- Entries are merged as wholes, and instances are put one behind the other. -/
theorem Filed.merge (h : Filed sandboxNull environmentNull c)
    (h' : Filed sandboxNull environmentNull c') :
    Filed sandboxNull environmentNull (c.merge c') := by
  refine ⟨h.built.merge config_fixed h'.built, ?_, ?_⟩
  · intro key v variant hv hvariant
    rcases at?_merge_entry config_tidy h.built h'.built rfl hv with hv | hv
    · exact h.sandboxes key v variant hv hvariant
    · exact h'.sandboxes key v variant hv hvariant
  · intro j i key v variant hi hv hvariant
    -- an instance of the merged configuration is one of the two, at an index of its own
    obtain ⟨m, hm, hitem⟩ := Option.bind_eq_some_iff.mp hi
    obtain ⟨y, z, hy, hz, rfl⟩ := child?_merge_record h.built h'.built hm
    have hspec := h.built.field config_tidy hy rfl
    have hspec' := h'.built.field config_tidy hz rfl
    obtain ⟨k, hk | hk⟩ := at?_merge_item spec_tidy hspec hspec' rfl hitem
    · exact h.environments k i key v variant (by rw [at?, hy]; exact hk) hv hvariant
    · exact h'.environments k i key v variant (by rw [at?, hz]; exact hk) hv hvariant

/-- An overwrite changes no member of a family into another. -/
theorem Filed.overwritten (h : Filed sandboxNull environmentNull c) {p : String × String}
    (hc' : overwritten? p c = some c') : Filed sandboxNull environmentNull c' := by
  have hbuilt := built_of_overwritten? h.built hc'
  rw [overwritten?, overwrite_toOption] at hc'
  obtain ⟨segments, -, hset⟩ := Option.bind_eq_some_iff.mp hc'
  obtain ⟨x, w, hleaf, hstore, rfl⟩ := setLeaf?_eq_some_iff.mp hset
  have hvariants := variant?_at?_put hleaf (store?_of_store?_eq_some hstore).1
  refine ⟨hbuilt, ?_, ?_⟩
  · intro key v variant hv hvariant
    have hsame := hvariants [.key "sandboxes", .key key]
    rw [hv, Option.bind_some, hvariant] at hsame
    obtain ⟨v', hv', hvariant'⟩ := Option.bind_eq_some_iff.mp hsame.symm
    exact h.sandboxes key v' variant hv' hvariant'
  · intro j i key v variant hi hv hvariant
    have hsame := hvariants ([.key "spec", .key "instances", .index j] ++
      [.key "environments", .key key])
    rw [at?_append, hi, Option.bind_some, hv, Option.bind_some, hvariant] at hsame
    obtain ⟨v', hv', hvariant'⟩ := Option.bind_eq_some_iff.mp hsame.symm
    rw [at?_append] at hv'
    obtain ⟨i', hi', hv'⟩ := Option.bind_eq_some_iff.mp hv'
    exact h.environments j i' key v' variant hi' hv' hvariant'

end

/-! ## §4 Resolving -/

/-- What holds of the configurations that documents stand for, and is kept by merging and by single
    overwrites, holds of what they stand for together. -/
theorem resolve_induction {P : Value → Prop} {context : Context} {documents : List Document}
    {overwrites : List (String × String)} {c : Value}
    (hbind : ∀ d ∈ documents, ∀ c, bindDocument context d = .ok c → P c)
    (hmerge : ∀ c c', P c → P c' → P (c.merge c'))
    (hoverwrite : ∀ p ∈ overwrites, ∀ c c', P c → overwritten? p c = some c' → P c')
    (h : resolve context documents overwrites = .ok c) : P c := by
  have hsome : (resolve context documents overwrites).toOption = some c := by rw [h]; rfl
  rw [resolve_toOption] at hsome
  obtain ⟨configs, hconfigs, hsome⟩ := Option.bind_eq_some_iff.mp hsome
  obtain ⟨merged, hmerged, hoverwritten⟩ := Option.bind_eq_some_iff.mp hsome
  have heach : ∀ c ∈ configs, P c := by
    intro c hc
    obtain ⟨d, hd, hdc⟩ := exists_mem_of_mapM (ok_of_toOption_eq_some hconfigs) c hc
    exact hbind d hd c hdc
  cases configs with
  | nil => cases hmerged
  | cons first others =>
    obtain ⟨hfirst, hothers⟩ := List.forall_mem_cons.mp heach
    have hall : P (others.foldl merge first) :=
      List.foldlRecOn others merge hfirst fun c hc c' hc' => hmerge c c' hc (hothers c' hc')
    obtain rfl := Option.some.inj hmerged
    exact overwrittenAll?_induction hoverwrite hall hoverwritten

variable {context : Context} {documents : List Document} {overwrites : List (String × String)}
  {c : Value}

/-- The sandboxes and environments of a resolved configuration are of the kinds that their keys
    name, but for those that null has reset in some document. -/
theorem filed_of_resolve (hfactories : context.factories = .standard)
    (h : resolve context documents overwrites = .ok c) :
    Filed (fun key => ∃ d ∈ documents, d.data.NullUnder "sandboxes" key)
      (fun key => ∃ d ∈ documents, ∃ x, GivesInstance context d x ∧
        x.NullUnder "environments" key) c := by
  refine resolve_induction ?_ (fun _ _ hc hc' => hc.merge hc')
    (fun _ _ _ _ hc hc' => hc.overwritten hc') h
  intro d hd c hc
  exact (filed_of_bindDocument hfactories hc).mono (fun _ hnull => ⟨d, hd, hnull⟩)
    fun _ hnull => ⟨d, hd, hnull⟩

/-- Each instance of a configuration stands at an index. -/
theorem exists_at?_of_mem_instances (hc : Built c (.record config)) {i : Value}
    (h : i ∈ c.instances) :
    ∃ j, at? [.key "spec", .key "instances", .index j] c = some i ∧
      Built i (.record instanceFields) := by
  unfold instances at h
  cases hslot : c.slot? "spec" with
  | none => simp [hslot] at h
  | some m =>
    have hm : child? (.key "spec") c = some m := (hc.slot?_eq config_tidy _).symm.trans hslot
    have hspec : Built m (.record spec) := hc.field config_tidy hm rfl
    cases hslot' : m.slot? "instances" with
    | none => simp [hslot, hslot'] at h
    | some l =>
      have hl : child? (.key "instances") m = some l :=
        (hspec.slot?_eq spec_tidy _).symm.trans hslot'
      cases hspec.field spec_tidy hl rfl with
      | @list _ is his =>
        have hmem : i ∈ is := by simpa [hslot, hslot', Value.items] using h
        obtain ⟨j, hj⟩ := List.mem_iff_getElem?.mp hmem
        refine ⟨j, ?_, his i hmem⟩
        rw [at?, hm, Option.bind_some, at?, hl, Option.bind_some, at?_singleton]
        exact hj

/-- Every sandbox of a resolved configuration is for the platform that its key names, and so is
    every environment of an instance, unless it is common and null stands under the key in one of
    the documents, or in a file that is loaded for an instance. -/
theorem resolve_kinds (hfactories : context.factories = .standard)
    (h : resolve context documents overwrites = .ok c) :
    (∀ key v, (key, v) ∈ c.sandboxes → ∃ p, v.variant? = some (.sandbox p) ∧
      (p.name = key ∨ p = .common ∧ ∃ d ∈ documents, d.data.NullUnder "sandboxes" key)) ∧
    ∀ i ∈ c.instances, ∀ key v, (key, v) ∈ i.environments →
      ∃ p, v.variant? = some (.environment p) ∧
        (p.name = key ∨ p = .common ∧ ∃ d ∈ documents, ∃ x, GivesInstance context d x ∧
          x.NullUnder "environments" key) := by
  have hfiled := filed_of_resolve hfactories h
  constructor
  · intro key v hmem
    obtain ⟨hat, hbuilt⟩ := at?_of_mem_entries hfiled.built config_tidy rfl hmem
    obtain ⟨variant, slots, rfl, -, -⟩ := hbuilt.exists_member
    obtain ⟨p, rfl, hp⟩ := hfiled.sandboxes key _ variant hat rfl
    exact ⟨p, rfl, hp⟩
  · intro i hi key v hmem
    obtain ⟨j, hj, hinstance⟩ := exists_at?_of_mem_instances hfiled.built hi
    obtain ⟨hat, hbuilt⟩ := at?_of_mem_entries hinstance instance_tidy rfl hmem
    obtain ⟨variant, slots, rfl, -, -⟩ := hbuilt.exists_member
    obtain ⟨p, rfl, hp⟩ := hfiled.environments j i key _ variant hj hat rfl
    exact ⟨p, rfl, hp⟩

/-- A document with an entry under the name of a platform. -/
def sandboxed (entry : Data) : Document :=
  ⟨"main.yaml", [("sandboxes", .map [("docker", entry)])]⟩

/-- From an empty map comes a sandbox for the platform. -/
theorem resolve_kinds_docker :
    ∃ c, resolve withoutFiles [sandboxed (.map [])] [] = .ok c ∧
      ∃ v, ("docker", v) ∈ c.sandboxes ∧ v.variant? = some (.sandbox .docker) := by
  have hsome : ((resolve withoutFiles [sandboxed (.map [])] []).toOption.map fun c =>
      Keyed.has "docker" c.sandboxes) = some true := by decide +kernel
  obtain ⟨c, hc, hhas⟩ := Option.map_eq_some_iff.mp hsome
  obtain ⟨v, hv⟩ := Option.isSome_iff_exists.mp hhas
  have hresolve : resolve withoutFiles [sandboxed (.map [])] [] = .ok c :=
    ok_of_toOption_eq_some hc
  have hmem := Keyed.mem_of_get?_eq_some hv
  refine ⟨c, hresolve, v, hmem, ?_⟩
  obtain ⟨p, hp, hname | ⟨-, d, hd, es, hes, hnull⟩⟩ :=
    (resolve_kinds rfl hresolve).1 "docker" v hmem
  · rw [hp]
    cases p <;> first | rfl | exact absurd hname (by decide)
  · -- there is no null in the document
    obtain rfl := List.mem_singleton.mp hd
    obtain rfl : [("docker", .map [])] = es := by
      simpa [sandboxed, Document.data, Data.child?, Keyed.get?] using hes
    simp at hnull

/-- From null comes the common sandbox, whatever the platform. -/
theorem resolve_kinds_null :
    ∃ c, resolve withoutFiles [sandboxed .null] [] = .ok c ∧
      ∃ v, ("docker", v) ∈ c.sandboxes ∧ v.platform?.map Platform.name = some "common" := by
  have hsome : ((resolve withoutFiles [sandboxed .null] []).toOption.bind fun c =>
      (Keyed.get? "docker" c.sandboxes).bind platform?) = some .common := by decide +kernel
  obtain ⟨c, hc, hentry⟩ := Option.bind_eq_some_iff.mp hsome
  obtain ⟨v, hv, hplatform⟩ := Option.bind_eq_some_iff.mp hentry
  refine ⟨c, ok_of_toOption_eq_some hc, v, Keyed.mem_of_get?_eq_some hv, ?_⟩
  rw [hplatform]
  rfl

end Rig

end Testbed

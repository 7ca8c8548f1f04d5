import Testbed.Proofs.Binding.Checked
import Testbed.Proofs.Rig.Kinds
import Testbed.Proofs.Value.Merging

/-!
# What documents compile to

Whatever documents are resolved without overwrites, the configuration that they come to is compiled:
its version is the one there is, actions that need a service have one, and fields hold what their
tags let through, or nothing (`resolve_compiled`). Binding gives such configurations, and merging
keeps them so: a record is merged slot by slot, everything else is taken over as it is.
-/

namespace Testbed

open Value Binding

variable {files : FileSystem} {d : Directives} {c c' v w : Value} {s : Shape}
  {slots others : Slots} {fs : Fields}

/-! ## §1 Merging -/

/-- What is let through without being a text is asked for its keys alone. -/
theorem Checked.of_not_text (h : Checked files d v) (hv : v.text? = none)
    (hkeys : ∀ keys, d.keys? = some keys → ∀ e es, w = .map e es →
      es = [] ∨ ∃ key ∈ keys, Keyed.has key es = true) : Checked files d w where
  allowed allowed hallowed := by
    obtain ⟨raw, rfl, -⟩ := h.allowed allowed hallowed
    cases hv
  path hpath := by
    obtain ⟨p, rfl, -⟩ := h.path hpath
    cases hv
  keys := hkeys

/-- Two values that have passed the checks of a tag pass them merged. -/
theorem Checked.merge (h : Checked files d v) (h' : Checked files d w) (hv : Built v s)
    (hw : Built w s) : Checked files d (v.merge w) := by
  cases hv with
  | text a =>
    cases hw with
    | text b =>
      rw [Value.merge]
      -- an empty text leaves the one before, and each has passed the checks
      split
      · exact h
      · exact h'
  | @map e es horder hentries =>
    cases hw with
    | @map _ fs horder' hentries' =>
      rw [Value.merge]
      refine h.of_not_text rfl fun keys hkeys e' es' heq => ?_
      obtain ⟨rfl, rfl⟩ := Value.map.inj heq
      -- a union has the keys of both, so one that is required is there if it was in either
      rcases h.keys keys hkeys _ _ rfl with rfl | ⟨key, hkey, hhas⟩
      · rcases h'.keys keys hkeys _ _ rfl with rfl | ⟨key, hkey, hhas⟩
        · exact .inl rfl
        · exact .inr ⟨key, hkey, by rw [Keyed.has_union horder'.nodup_keys, hhas, Bool.or_true]⟩
      · exact .inr ⟨key, hkey, by rw [Keyed.has_union horder'.nodup_keys, hhas, Bool.true_or]⟩
  | list _ =>
    cases hw
    rw [Value.merge]
    exact h.of_not_text rfl fun _ _ _ _ => nofun
  | record _ =>
    cases hw
    rw [Value.merge]
    exact h.of_not_text rfl fun _ _ _ _ => nofun
  | member _ =>
    obtain ⟨variant, others, rfl, -, -⟩ := hw.exists_member
    rw [Value.merge]
    exact h.of_not_text rfl fun _ _ _ _ => nofun
  | _ => exact h'

theorem checked_mergeSlots (hslots : SlotsBuilt slots fs) (hothers : SlotsBuilt others fs)
    (h : ∀ f w, (f, w) ∈ slots → ∀ d, directives f = .ok d → Checked files d w)
    (h' : ∀ f w, (f, w) ∈ others → ∀ d, directives f = .ok d → Checked files d w) :
    ∀ f w, (f, w) ∈ mergeSlots slots others → ∀ d, directives f = .ok d → Checked files d w := by
  induction slots generalizing others fs with
  | nil => simp [mergeSlots]
  | cons e rest ih =>
    cases hslots with
    | @cons f v s _ fs hv hslots =>
      cases hothers with
      | @cons _ w _ others _ hw hothers =>
        intro g x hx d hd
        rw [mergeSlots] at hx
        rcases List.mem_cons.mp hx with heq | hx
        · obtain ⟨rfl, rfl⟩ := Prod.mk.inj heq
          exact (h _ _ List.mem_cons_self d hd).merge (h' _ _ List.mem_cons_self d hd) hv hw
        · exact ih hslots hothers (fun f w hw => h f w (List.mem_cons_of_mem _ hw))
            (fun f w hw => h' f w (List.mem_cons_of_mem _ hw)) g x hx d hd

/-- What passes is merged slot by slot. -/
theorem passed_isMergeable (files : FileSystem) : IsMergeable (Passed files) where
  plain v hv := passed_of_ne_record hv
  merge := by
    intro slots others fs hslots hothers h h'
    refine ⟨?_, fun kind hkind => by cases hkind⟩
    rintro _ _ ⟨⟩
    exact checked_mergeSlots hslots hothers (h.slots _ _ rfl) (h'.slots _ _ rfl)

namespace Rig

variable {context : Context} {documents : List Document}

/-! ## §2 Configurations -/

/-- Whether a configuration is put together as declared, valid, and of the version that there is. -/
structure ValidConfig (files : FileSystem) (c : Value) : Prop where
  built : Built c (.record config)
  valid : Valid files c
  version : c.slot? "version" = some (.text "0.1")

/-- The field of the version. -/
def versionField : Field := ⟨"Config", "version", "version,enum=0.1,default=0.1"⟩

theorem versionField_mem : (versionField, .text) ∈ config :=
  List.mem_of_getElem? (i := 0) rfl

/-- The tag of the version allows one text, which is its default. -/
theorem directives_versionField : directives versionField =
    .ok ⟨[("default", "0.1"), ("enum", "0.1"), ("name", "version")]⟩ := by
  rfl

/-- The version is the same after merging. -/
theorem version_merge (hc : Built c (.record config)) (hc' : Built c' (.record config))
    (h : c.slot? "version" = some (.text "0.1")) (h' : c'.slot? "version" = some (.text "0.1")) :
    (c.merge c').slot? "version" = some (.text "0.1") := by
  obtain ⟨x, y, hx, hy, -, -, hmerge⟩ :=
    slot?_merge config_tidy config_fixed hc hc' versionField_mem
  obtain rfl := Option.some.inj (h.symm.trans hx)
  obtain rfl := Option.some.inj (h'.symm.trans hy)
  exact hmerge

/-- Valid configurations are merged into a valid one. -/
theorem ValidConfig.merge (h : ValidConfig files c) (h' : ValidConfig files c') :
    ValidConfig files (c.merge c') where
  built := h.built.merge config_fixed h'.built
  valid := (passed_isMergeable files).everywhere h.built config_fixed h'.built h.valid h'.valid
  version := version_merge h.built h'.built h.version h'.version

/-- A text is bound to what it is. -/
theorem level_text_ensures (n : Nat) (document : Path) (r t : String) :
    ((Deeper.level context n).assign document (.text r) (.text t)).Ensures (· = .text r) := by
  cases n with
  | zero => exact .fail _
  | succ n => exact .pure rfl

/-- The version is the one that there is, or it is left out and takes its default. -/
theorem version_of_bindDocument {d : Document} (h : bindDocument context d = .ok c) :
    c.slot? "version" = some (.text "0.1") := by
  have hbound := bound_of_bindDocument h
  rw [(hbound.built isConfig_empty.built).slot?_eq config_tidy]
  have hmem : (versionField, .text "") ∈ Fields.zero config := List.mem_of_getElem? (i := 0) rfl
  rcases hbound.record_cases with ⟨hnull, -⟩ | ⟨es, n, -, hslots⟩
  · cases hnull
  · obtain ⟨w, hw, hslot⟩ := child?_of_slots (slotsHave_zero config).built config_tidy hmem hslots
    refine hw.trans (congrArg some ?_)
    cases hx : present? "version" es with
    | none =>
      rw [slotOutcome_absent directives_versionField (by simp) hx] at hslot
      exact (Except.ok.inj hslot).symm
    | some x =>
      rw [slotOutcome_present directives_versionField (by simp) hx,
        field_value rfl (by rintro ⟨_, _, _, _, ⟨⟩, -, -⟩),
        value_outcome (Deeper.level_self n) (fun _ _ => rfl)] at hslot
      obtain ⟨_, hcheck, hassign⟩ := exists_ok_of_bind hslot
      rw [checkValue_eq] at hcheck
      obtain ⟨_, hallowed, -⟩ := exists_ok_of_bind hcheck
      have hversion : Directives.allowed? ⟨[("default", "0.1"), ("enum", "0.1"),
          ("name", "version")]⟩ = some ["0.1"] := by decide
      obtain ⟨raw, rfl, hraw⟩ := exists_text_of_allowedCheck hversion hallowed
      obtain rfl := List.mem_singleton.mp hraw
      exact (level_text_ensures n d.path "0.1" "").outcome hassign

/-- What a document is bound to is valid. -/
theorem validConfig_of_bindDocument (hfactories : context.factories = .standard) {d : Document}
    (h : bindDocument context d = .ok c) : ValidConfig context.files c := by
  have hbound := bound_of_bindDocument h
  refine ⟨hbound.built isConfig_empty.built, ?_, version_of_bindDocument h⟩
  obtain ⟨n, hn⟩ := hbound
  exact (Deeper.level_validates hfactories n d.path d.data isConfig_empty.built
    config_sound).outcome hn

/-- What documents are resolved to is valid. -/
theorem validConfig_of_resolve (hfactories : context.factories = .standard)
    (h : resolve context documents [] = .ok c) : ValidConfig context.files c := by
  refine resolve_induction (fun d _ c hc => validConfig_of_bindDocument hfactories hc)
    (fun _ _ hc hc' => hc.merge hc') ?_ h
  intro p hp
  cases hp

/-! ## §3 What there is in a configuration -/

/-- Whether a configuration is what documents compile to. -/
structure Compiled (files : FileSystem) (c : Value) : Prop where
  /-- The version is the one that there is. -/
  version : c.slot? "version" = some (.text "0.1")
  /-- An action that needs a service has one, however deep it is nested. -/
  service : ∀ a kind, Within a c → a.actionKind? = some kind →
    kind ∈ [.bench, .execute, .request, .start, .stop, .restart, .reload] → a.service ≠ ""
  /-- A field that has its texts listed holds one of them or the empty text. -/
  allowed : ∀ variant slots f v d allowed, Within (record variant slots) c → (f, v) ∈ slots →
    directives f = .ok d → d.allowed? = some allowed → ∃ s, v = .text s ∧ (s ∈ allowed ∨ s = "")
  /-- A field for a path holds that of something that exists, or the empty text. -/
  path : ∀ variant slots f v d, Within (record variant slots) c → (f, v) ∈ slots →
    directives f = .ok d → d.isPath = true →
      ∃ p, v = .text p ∧ (p = "" ∨ files.isPresent p = true)
  /-- The directories of a sandbox are none, or one of those that are looked for is there. -/
  dirs : ∀ platform slots, Within (record (some (.sandbox platform)) slots) c →
    ∃ es, (record (some (.sandbox platform)) slots).slot? "dirs" = some (.map .text es) ∧
      (es = [] ∨ ∃ key ∈ ["conf", "run", "script"], Keyed.has key es = true)

/-- The field of a sandbox's directories. -/
def dirsField : Field := ⟨"CommonSandbox", "dirs", "dirs,keys=conf|run|script"⟩

theorem dirsField_mem (p : Platform) : (dirsField, .map .text) ∈ sandbox p := by
  have hcommon : (dirsField, .map .text) ∈ sandboxOwn .common :=
    List.mem_of_getElem? (i := 1) rfl
  cases p <;> simp [sandbox, lineage, Lineage.flat, hcommon]

/-- A sandbox that has passed the checks has one of its directories, or says nothing of them. -/
theorem dirs_of_valid {p : Platform} (hbuilt : SlotsBuilt slots (sandbox p))
    (h : Passed files (record (some (.sandbox p)) slots)) :
    ∃ es, (record (some (.sandbox p)) slots).slot? "dirs" = some (.map .text es) ∧
      (es = [] ∨ ∃ key ∈ ["conf", "run", "script"], Keyed.has key es = true) := by
  obtain ⟨v, hv, hmap⟩ := hbuilt.exists_slot (dirsField_mem p)
  have hslot := hbuilt.slot?_of_mem (variant_tidy (.sandbox p)) (some (.sandbox p)) hv
  have hchecked := h.slots _ _ rfl _ _ hv
    ⟨[("keys", "conf|run|script"), ("name", "dirs")]⟩ (by rfl)
  cases hmap with
  | @map _ es _ _ =>
    have hkeys : Directives.keys? ⟨[("keys", "conf|run|script"), ("name", "dirs")]⟩ =
        some ["conf", "run", "script"] := by decide
    exact ⟨es, hslot, hchecked.keys _ hkeys _ _ rfl⟩

/-- Documents that are resolved without overwrites come to a configuration that is compiled. -/
theorem resolve_compiled (hfactories : context.factories = .standard)
    (h : resolve context documents [] = .ok c) : Compiled context.files c := by
  obtain ⟨hbuilt, hvalid, hversion⟩ := validConfig_of_resolve hfactories h
  refine ⟨hversion, ?_, ?_, ?_, ?_⟩
  · intro a kind ha hkind hneeds
    refine (hvalid a ha).service kind hkind ?_
    revert hneeds
    cases kind <;> decide
  · intro variant slots f v d allowed hwithin hv hd
    exact ((hvalid _ hwithin).slots _ _ rfl f v hv d hd).allowed allowed
  · intro variant slots f v d hwithin hv hd
    exact ((hvalid _ hwithin).slots _ _ rfl f v hv d hd).path
  · intro p slots hwithin
    obtain ⟨e, he⟩ := exists_built_of_within hwithin hbuilt
    cases he with
    | member hslots => exact dirs_of_valid hslots (hvalid _ hwithin)

/-- A document with a sandbox and with an action in a group. -/
def grouped : Document :=
  ⟨"main.yaml", [
    ("sandboxes", .map [("docker", .map [("dirs", .map [("conf", .text "/etc")])])]),
    ("spec", .map [("instances", .list [.map [("actions", .list [
      .map [("parallel", .list [.text "bench/web"])]])]])])]⟩

theorem resolve_compiled_grouped :
    ∃ c, resolve withoutFiles [grouped] [] = .ok c ∧ Compiled withoutFiles.files c ∧
      c.instances.flatMap (fun i => i.actions.flatMap fun a => a.nested.map verb) = ["bench"] := by
  have hsome : ((resolve withoutFiles [grouped] []).toOption.map fun c =>
      c.instances.flatMap fun i => i.actions.flatMap fun a => a.nested.map verb) =
        some ["bench"] := by decide +kernel
  obtain ⟨c, hc, hnested⟩ := Option.map_eq_some_iff.mp hsome
  have hresolve := ok_of_toOption_eq_some hc
  exact ⟨c, hresolve, resolve_compiled rfl hresolve, hnested⟩

end Rig

end Testbed

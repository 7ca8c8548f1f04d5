import Testbed.Proofs.Binding.Restoring
import Testbed.Proofs.Rig.Compiled

/-!
# Configurations that come back

A configuration is shown as data, and a walker binds the data again. A walker gives back the very
configuration, from whatever document it is told that the data is, in place of whatever
configuration, and whether it checks keys or not (`Walker.config_restored`). For that the
configuration must be one that a document can give (`Rig.Restorable`): it is of the version that
there is, its sandboxes have directories, sandboxes and environments are filed under their own
platforms, its services run in sandboxes that there are, its paths are absolute and lead somewhere,
and its instances have no actions, since these are written in a form of their own.

Of the tags in a configuration few ask for more than a path. The records that have such fields are
taken one by one, from services up to the whole; everything else is checked by its shape.
-/

namespace Testbed

open Value Binding

/-! ## §1 What tags ask for -/

/-- What the tag of a field asks for, paths apart: the texts that are allowed, the keys of which one
    must be there, and whether a factory fills the field. -/
def Field.asks (f : Field) : Option (Option (List String) × Option (List String) × Bool) :=
  (directives f).toOption.map fun d => (d.allowed?, d.keys?, d.factory?.isSome)

section

variable {f : Field} {d : Directives} {v : Value}

theorem Field.eq_of_asks {allowed keys : Option (List String)} {filled : Bool}
    (h : f.asks = some (allowed, keys, filled)) (hd : directives f = .ok d) :
    d.allowed? = allowed ∧ d.keys? = keys ∧ d.factory?.isSome = filled := by
  simpa [asks, hd, Except.toOption] using h

theorem met_of_asks_nothing (h : f.asks = some (none, none, false)) (hd : directives f = .ok d) :
    Met d v := by
  obtain ⟨hallowed, hkeys, hfactory⟩ := Field.eq_of_asks h hd
  exact ⟨by simp [hallowed], by simp [hkeys], fun name hname => by simp [hname] at hfactory⟩

theorem met_of_asks_allowed {allowed : List String} (h : f.asks = some (some allowed, none, false))
    (hd : directives f = .ok d) {raw : String} (hraw : raw ∈ allowed) : Met d (.text raw) := by
  obtain ⟨hallowed, hkeys, hfactory⟩ := Field.eq_of_asks h hd
  refine ⟨fun others hothers => ?_, by simp [hkeys], ?_⟩
  · obtain rfl := Option.some.inj (hallowed.symm.trans hothers)
    exact ⟨raw, hraw, rfl⟩
  · intro name hname
    simp [hname] at hfactory

theorem met_of_asks_keys {keys : List String} (h : f.asks = some (none, some keys, false))
    (hd : directives f = .ok d) {e : Shape} {es : List (String × Value)}
    (hes : ∃ key ∈ keys, Keyed.has key es = true) : Met d (.map e es) := by
  obtain ⟨hallowed, hkeys, hfactory⟩ := Field.eq_of_asks h hd
  refine ⟨by simp [hallowed], fun others hothers => ?_, ?_⟩
  · obtain rfl := Option.some.inj (hkeys.symm.trans hothers)
    exact ⟨e, es, rfl, hes⟩
  · intro name hname
    simp [hname] at hfactory

/-- A tag with a factory is met by what is filed as the factory does. -/
theorem met_of_asks_factory (h : f.asks = some (none, none, true)) (hd : directives f = .ok d)
    (hv : v.Filed) : Met d v := by
  obtain ⟨hallowed, hkeys, -⟩ := Field.eq_of_asks h hd
  exact ⟨by simp [hallowed], by simp [hkeys], fun _ _ => hv⟩

end

/-! ## §2 Plain shapes -/

mutual
/-- Whether the tags within a shape ask for paths alone. -/
def Shape.isPlain : Shape → Bool
  | .list e => e.isPlain
  | .map e => e.isPlain
  | .record fields => plainFields fields
  | .oneOf _ => false
  | _ => true
/-- Whether the tag of a field and those within its shape ask for paths alone. -/
def plainField : Field × Shape → Bool
  | (field, s) => field.asks = some (none, none, false) && s.isPlain
/-- Whether the tags of fields and those within their shapes ask for paths alone. -/
def plainFields : Fields → Bool
  | [] => true
  | e :: rest => plainField e && plainFields rest
end

theorem plainFields_eq_all (fields : Fields) : plainFields fields = fields.all plainField := by
  induction fields with
  | nil => rfl
  | cons e rest ih => rw [plainFields, ih, List.all_cons]

/-- Plain fields ask for nothing, and are plain inside. -/
theorem plain_of_mem {fields : Fields} (h : plainFields fields = true) {f : Field} {s : Shape}
    (hs : (f, s) ∈ fields) : f.asks = some (none, none, false) ∧ s.isPlain = true := by
  rw [plainFields_eq_all] at h
  simpa [plainField] using List.all_eq_true.mp h _ hs

/-- Whether a value, if it is a record, holds what its fields ask for, paths apart. -/
def MetInside (v : Value) : Prop :=
  ∀ variant slots, v = .record variant slots → ∀ f w, (f, w) ∈ slots →
    ∀ d, directives f = .ok d → Met d w

/-- Whether a value is one that a field asks for, and so is everything within. -/
def MetIn (f : Field) (v : Value) : Prop :=
  (∀ d, directives f = .ok d → Met d v) ∧ Everywhere MetInside v

section

variable {v w : Value} {s e : Shape} {slots : Slots} {fs : Fields}

/-- A value of a plain shape meets all tags inside. -/
theorem metInside_of_plain (hv : HasShape v s) (hs : s.isPlain = true) : MetInside v := by
  rintro variant slots rfl f w hw d hd
  cases hv with
  | record hslots =>
    obtain ⟨e, he, -⟩ := hslots.exists_field hw
    exact met_of_asks_nothing (plain_of_mem hs he).1 hd
  | member _ => cases hs

/-- Everything within a value of a plain shape is of a plain shape. -/
theorem everywhere_met_of_plain (hv : HasShape v s) (hs : s.isPlain = true) :
    Everywhere MetInside v := by
  intro w hw
  induction hw generalizing s with
  | self => exact metInside_of_plain hv hs
  | slot hmem _ ih =>
    cases hv with
    | record hslots =>
      obtain ⟨e, he, hshape⟩ := hslots.exists_field hmem
      exact ih hshape (plain_of_mem hs he).2
    | member _ => cases hs
  | item hmem _ ih =>
    cases hv with
    | list _ hitems => exact ih (hitems _ hmem) hs
  | entry hmem _ ih =>
    cases hv with
    | map _ hentries => exact ih (hentries _ _ hmem) hs

/-- Of a record those fields are left to be looked at that are not plain. -/
theorem everywhere_met_record {variant : Option Variant} (hslots : SlotsHave slots fs)
    (ht : tidyFields fs = true) (special : Fields)
    (hplain : (fs.all fun e => special.any (·.1 = e.1) || plainField e) = true)
    (hspecial : ∀ e ∈ special, e ∈ fs ∧ ∀ v, HasShape v e.2 →
      (record variant slots).slot? e.1.ident = some v → MetIn e.1 v) :
    Everywhere MetInside (record variant slots) := by
  have hmet : ∀ f v, (f, v) ∈ slots → MetIn f v := by
    intro f v hv
    obtain ⟨s, hs, hshape⟩ := hslots.exists_field hv
    have hfield := List.all_eq_true.mp hplain _ hs
    simp only [plainField, Bool.or_eq_true, Bool.and_eq_true, decide_eq_true_eq,
      List.any_eq_true] at hfield
    rcases hfield with ⟨⟨g, s'⟩, hin, heq⟩ | ⟨hasks, hplain⟩
    · obtain rfl : g = f := heq
      obtain ⟨hmem, hmet⟩ := hspecial _ hin
      obtain rfl := shape_eq_of_mem ht hs hmem
      exact hmet v hshape (hslots.built.slot?_of_mem ht variant hv)
    · exact ⟨fun d hd => met_of_asks_nothing hasks hd, everywhere_met_of_plain hshape hplain⟩
  refine everywhere_record.mpr ⟨?_, fun f v hv => (hmet f v hv).2⟩
  rintro _ _ ⟨⟩ f v hv
  exact (hmet f v hv).1

theorem everywhere_met_list {items : List Value} (h : ∀ v ∈ items, Everywhere MetInside v) :
    Everywhere MetInside (list e items) :=
  everywhere_list.mpr ⟨nofun, h⟩

theorem everywhere_met_map {es : List (String × Value)}
    (h : ∀ key v, (key, v) ∈ es → Everywhere MetInside v) : Everywhere MetInside (map e es) :=
  everywhere_map.mpr ⟨nofun, h⟩

/-- Sandboxes or environments that are filed by their names, in a field that a factory fills. -/
theorem metIn_of_filedByName {f : Field} {es : List (String × Value)}
    (hasks : f.asks = some (none, none, true)) (hfiled : FiledByName es)
    (h : ∀ key v, (key, v) ∈ es → Everywhere MetInside v) : MetIn f (map e es) :=
  ⟨fun _ hd => met_of_asks_factory hasks hd (.map hfiled), everywhere_met_map h⟩

end

namespace Rig

variable {v : Value} {slots : Slots}

/-! ## §3 Services, sandboxes and environments -/

/-- The field of a service's sandbox. -/
def sandboxField : Field :=
  ⟨"Service", "sandbox", "sandbox,enum=local|docker|kubernetes,default=local"⟩

theorem service_tidy : tidyFields serviceFields = true := by
  have hservices : (⟨"Instance", "services", "services"⟩, .map (.record serviceFields)) ∈
      instanceFields := List.mem_of_getElem? (i := 2) rfl
  simpa [Shape.isTidy] using isTidy_of_mem instance_tidy hservices

/-- Whether a service runs in a sandbox of one of the platforms for services. -/
def RunsInSandbox (s : Value) : Prop :=
  ∃ name ∈ ["local", "docker", "kubernetes"], s.slot? "sandbox" = some (.text name)

/-- A service that runs in a sandbox meets all tags inside. -/
theorem met_service (hv : HasShape v (.record serviceFields)) (h : RunsInSandbox v) :
    Everywhere MetInside v := by
  obtain ⟨name, hname, hslot⟩ := h
  have hasks : sandboxField.asks = some (some ["local", "docker", "kubernetes"], none, false) := by
    decide +kernel
  cases hv with
  | record hslots =>
    apply everywhere_met_record hslots service_tidy [(sandboxField, .text)] (by decide +kernel)
    intro e he
    obtain rfl := List.mem_singleton.mp he
    refine ⟨List.mem_of_getElem? (i := 1) rfl, fun w _ hw => ?_⟩
    obtain rfl := Option.some.inj (hw.symm.trans hslot)
    exact ⟨fun d hd => met_of_asks_allowed hasks hd hname, everywhere_of_isScalar rfl nofun⟩

/-- Whether a sandbox has one of the directories that are looked for. -/
def HasDirs (s : Value) : Prop :=
  ∃ es, s.slot? "dirs" = some (.map .text es) ∧
    ∃ key ∈ ["conf", "run", "script"], Keyed.has key es = true

/-- A sandbox with the directories it needs meets all tags inside. -/
theorem met_sandbox (hv : HasShape v (.oneOf .sandbox)) (h : HasDirs v) :
    Everywhere MetInside v := by
  obtain ⟨es, hslot, hkeys⟩ := h
  have hasks : dirsField.asks = some (none, some ["conf", "run", "script"], false) := by
    decide +kernel
  obtain ⟨variant, slots, rfl, hfamily, hslots⟩ := hv.exists_member
  cases variant with
  | sandbox p =>
    let special : Fields := [(dirsField, .map .text)]
    have hplain (q : Platform) :
        ((sandboxOwn q).all fun e => special.any (·.1 = e.1) || plainField e) = true := by
      cases q <;> decide +kernel
    apply everywhere_met_record hslots (variant_tidy (.sandbox p)) special (all_lineage hplain p)
    intro e he
    obtain rfl := List.mem_singleton.mp he
    refine ⟨dirsField_mem p, fun w hw hfound => ?_⟩
    obtain rfl := Option.some.inj (hfound.symm.trans hslot)
    exact ⟨fun d hd => met_of_asks_keys hasks hd hkeys, everywhere_met_of_plain hw rfl⟩
  | _ => cases hfamily

/-- An environment meets all tags inside. -/
theorem met_environment (hv : HasShape v (.oneOf .environment)) : Everywhere MetInside v := by
  obtain ⟨variant, slots, rfl, hfamily, hslots⟩ := hv.exists_member
  cases variant with
  | environment p =>
    let special : Fields := []
    have hplain (q : Platform) :
        ((environmentOwn q).all fun e => special.any (·.1 = e.1) || plainField e) = true := by
      cases q <;> decide +kernel
    exact everywhere_met_record hslots (variant_tidy (.environment p)) special
      (all_lineage hplain p) (by simp [special])
  | _ => cases hfamily

/-! ## §4 Instances and the whole -/

/-- The services of an instance. -/
def services (i : Value) : List (String × Value) :=
  ((i.slot? "services").map Value.entries).getD []

/-- What an instance is to be like, so that it comes back from what it is shown as. -/
structure RestorableInstance (i : Value) : Prop where
  /-- There are no actions. -/
  actions : i.actions = []
  /-- Environments are filed under their own platforms. -/
  environments : FiledByName i.environments
  /-- Every service runs in a sandbox of one of the platforms for services. -/
  services : ∀ key s, (key, s) ∈ services i → RunsInSandbox s

/-- What a configuration is to be like, so that it comes back from what it is shown as. -/
structure Restorable (files : FileSystem) (c : Value) : Prop where
  config : IsConfig c
  /-- The version is the one that there is. -/
  version : c.slot? "version" = some (.text "0.1")
  /-- Sandboxes are filed under their own platforms. -/
  sandboxes : FiledByName c.sandboxes
  /-- Every sandbox has one of the directories that are looked for. -/
  dirs : ∀ key s, (key, s) ∈ c.sandboxes → HasDirs s
  instances : ∀ i ∈ c.instances, RestorableInstance i
  /-- A field for a path holds an absolute one, of something that exists. -/
  path : ∀ variant slots f v d, Within (record variant slots) c → (f, v) ∈ slots →
    directives f = .ok d → d.isPath = true →
      ∃ p, v = .text p ∧ Path.isAbsolute p = true ∧ files.isPresent p = true

/-- The field of an instance's services. -/
def servicesField : Field := ⟨"Instance", "services", "services"⟩

/-- The field of an instance's environments. -/
def environmentsField : Field := ⟨"Instance", "environments", "environments,factory=environments"⟩

/-- The field of an instance's actions. -/
def actionsField : Field := ⟨"Instance", "actions", "actions,factory=actions"⟩

/-- The field of the instances. -/
def instancesField : Field := ⟨"Spec", "instances", "instances,loadable"⟩

/-- The field of the sandboxes. -/
def sandboxesField : Field := ⟨"Config", "sandboxes", "sandboxes,factory=sandboxes"⟩

/-- The field of what is to be run. -/
def specField : Field := ⟨"Config", "spec", "spec"⟩

theorem entries_of_slot? {name : String} {e : Shape} {es : List (String × Value)}
    (h : v.slot? name = some (.map e es)) : ((v.slot? name).map Value.entries).getD [] = es := by
  rw [h]
  rfl

theorem items_of_slot? {name : String} {e : Shape} {items : List Value}
    (h : v.slot? name = some (.list e items)) :
    ((v.slot? name).map Value.items).getD [] = items := by
  rw [h]
  rfl

/-- An instance that can be restored meets all tags inside. -/
theorem met_instance (hv : HasShape v (.record instanceFields)) (h : RestorableInstance v) :
    Everywhere MetInside v := by
  cases hv with
  | @record _ slots hslots =>
    -- services have an enumeration inside; environments and actions are filled by factories
    apply everywhere_met_record hslots instance_tidy
      [(servicesField, .map (.record serviceFields)),
        (environmentsField, .map (.oneOf .environment)), (actionsField, .list (.oneOf .action))]
      (by decide +kernel)
    simp only [List.forall_mem_cons]
    refine ⟨⟨List.mem_of_getElem? (i := 2) rfl, ?services⟩,
      ⟨List.mem_of_getElem? (i := 3) rfl, ?environments⟩,
      ⟨List.mem_of_getElem? (i := 4) rfl, ?actions⟩, by simp⟩
    case services =>
      intro w hw hslot
      have hasks : servicesField.asks = some (none, none, false) := by decide +kernel
      cases hw with
      | @map _ es _ hentries =>
        have hes : services (record none slots) = es := entries_of_slot? hslot
        refine ⟨fun d hd => met_of_asks_nothing hasks hd, ?_⟩
        apply everywhere_met_map
        intro key s hs
        exact met_service (hentries key s hs) (h.services key s (hes ▸ hs))
    case environments =>
      intro w hw hslot
      have hasks : environmentsField.asks = some (none, none, true) := by decide +kernel
      cases hw with
      | @map _ es _ hentries =>
        have hes : (record none slots).environments = es := entries_of_slot? hslot
        apply metIn_of_filedByName hasks (hes ▸ h.environments)
        intro key e he
        exact met_environment (hentries key e he)
    case actions =>
      intro w hw hslot
      have hasks : actionsField.asks = some (none, none, true) := by decide +kernel
      cases hw with
      | @list _ items _ hitems =>
        obtain rfl : items = [] := (items_of_slot? hslot).symm.trans h.actions
        exact ⟨fun d hd => met_of_asks_factory hasks hd (.list _), everywhere_met_list (by simp)⟩

/-- A specification meets all tags inside where its instances can be restored. -/
theorem met_spec (hv : HasShape v (.record spec))
    (h : ∀ i ∈ ((v.slot? "instances").map Value.items).getD [], RestorableInstance i) :
    Everywhere MetInside v := by
  have hasks : instancesField.asks = some (none, none, false) := by decide +kernel
  cases hv with
  | @record _ slots hslots =>
    apply everywhere_met_record hslots spec_tidy [(instancesField, .list (.record instanceFields))]
      (by decide +kernel)
    intro e he
    obtain rfl := List.mem_singleton.mp he
    refine ⟨List.mem_of_getElem? (i := 1) rfl, fun w hw hslot => ?_⟩
    cases hw with
    | @list _ items _ hitems =>
      refine ⟨fun d hd => met_of_asks_nothing hasks hd, ?_⟩
      apply everywhere_met_list
      intro i hi
      exact met_instance (hitems i hi) (h i ((items_of_slot? hslot).symm ▸ hi))

/-- A configuration that can be restored holds what its fields ask for. -/
theorem met_config {files : FileSystem} {c : Value} (h : Restorable files c) :
    Everywhere MetInside c := by
  have hconfig := h.config
  cases hconfig with
  | @record _ slots hslots =>
    -- three fields ask for something; the others are plain by the check of their declarations
    apply everywhere_met_record hslots config_tidy
      [(versionField, .text), (sandboxesField, .map (.oneOf .sandbox)), (specField, .record spec)]
      (by decide +kernel)
    simp only [List.forall_mem_cons]
    refine ⟨⟨versionField_mem, ?version⟩, ⟨List.mem_of_getElem? (i := 3) rfl, ?sandboxes⟩,
      ⟨List.mem_of_getElem? (i := 5) rfl, ?spec⟩, by simp⟩
    case version =>
      intro w _ hslot
      have hasks : versionField.asks = some (some ["0.1"], none, false) := by decide +kernel
      obtain rfl := Option.some.inj (hslot.symm.trans h.version)
      refine ⟨fun d hd => ?_, everywhere_of_isScalar rfl nofun⟩
      exact met_of_asks_allowed hasks hd (by simp)
    case sandboxes =>
      intro w hw hslot
      have hasks : sandboxesField.asks = some (none, none, true) := by decide +kernel
      cases hw with
      | @map _ es _ hentries =>
        have hes : (record none slots).sandboxes = es := entries_of_slot? hslot
        apply metIn_of_filedByName hasks (hes ▸ h.sandboxes)
        intro key s hs
        exact met_sandbox (hentries key s hs) (h.dirs key s (hes ▸ hs))
    case spec =>
      intro w hw hslot
      have hasks : specField.asks = some (none, none, false) := by decide +kernel
      have hspec : (record none slots).slot? "spec" = some w := hslot
      have hinstances : (record none slots).instances =
          ((w.slot? "instances").map Value.items).getD [] := by
        rw [instances, hspec]
        rfl
      refine ⟨fun d hd => met_of_asks_nothing hasks hd, ?_⟩
      apply met_spec hw
      intro i hi
      exact h.instances i (hinstances ▸ hi)

/-- A configuration that can be restored is ready for it everywhere inside. -/
theorem ready_of_restorable {files : FileSystem} {c : Value} (h : Restorable files c) :
    Everywhere (Ready files) c := by
  rintro _ hw variant slots rfl f v hv d hd
  exact ⟨met_config h _ hw _ _ rfl f v hv d hd, h.path variant slots f v d hw hv hd⟩

end Rig

namespace Walker

open Rig

variable {w : Walker} {c target : Value}

/-- A walker gives a configuration back from what it is shown as. -/
theorem config_restored (hfactories : w.context.factories = .standard)
    (hc : Restorable w.context.files c) (document : Path)
    (htarget : Built target (.record Rig.config)) :
    (w.config document c.toData target).1 = .ok c := by
  rw [config_forgets w document c.toData htarget]
  have hconfig := hc.config
  cases hconfig with
  | @record _ slots hslots =>
    have hheight : (Shape.record Rig.config).height ≤ maxDepth + 1 := by decide +kernel
    have hwhole := (Deeper.level_restores hfactories (maxDepth + 1)).assign document hc.config
      config_tidy config_sound (ready_of_restorable hc) hheight
    have hbind := @bindDocument_toOption w.context ⟨document, Keyed.ofList (slotsData slots)⟩
    exact ok_of_toOption_eq_some (hbind.trans (congrArg Except.toOption hwhole))

/-- Whether the fields of a record for paths hold absolute ones, of what exists. -/
def holdsPaths (files : FileSystem) : Value → Bool
  | .record _ slots => slots.all fun e =>
    match directives e.1, e.2 with
    | .ok d, .text p => !d.isPath || Path.isAbsolute p && files.isPresent p
    | .ok d, _ => !d.isPath
    | .error _, _ => true
  | _ => true

/-- Where all paths are held, a field with a path in its tag has one that is absolute and there. -/
theorem path_of_all {files : FileSystem} (h : c.all (holdsPaths files) = true)
    {variant : Option Variant} {slots : Slots} {f : Field} {v : Value} {d : Directives}
    (hw : Within (record variant slots) c) (hv : (f, v) ∈ slots) (hd : directives f = .ok d)
    (hpath : d.isPath = true) :
    ∃ p, v = .text p ∧ Path.isAbsolute p = true ∧ files.isPresent p = true := by
  have hslot := List.all_eq_true.mp (everywhere_of_all c h _ hw) _ hv
  cases v with
  | text p => exact ⟨p, rfl, by simpa [hd, hpath] using hslot⟩
  | _ => simp [hd, hpath] at hslot

/-- The files of a rig with a configuration file. -/
def rigFiles : FileSystem := (StoredFiles.empty.insert "/etc/web.conf" []).fileSystem

/-- A server with a configuration file. -/
def webServer : Value :=
  (Shape.record server).zero.setSlot "configs" (.map (.record serverConfig)
    [("main", (Shape.record serverConfig).zero.setSlot "file" (.text "/etc/web.conf"))])

/-- A sandbox with a directory. -/
def dockerSandbox : Value :=
  (Variant.sandbox .docker).zero.setSlot "dirs" (.map .text [("conf", .text "conf")])

/-- An instance with a service and an environment. -/
def webInstance : Value :=
  let service := (Shape.record serviceFields).zero.setSlot "sandbox" (.text "docker")
  ((Shape.record instanceFields).zero.setSlot "services" (.map (.record serviceFields)
    [("web", service)])).setSlot "environments" (.map (.oneOf .environment)
      [("local", (Variant.environment .host).zero)])

/-- A configuration with all of these. -/
def webConfig : Value :=
  let spec := (Shape.record spec).zero.setSlot "instances"
    (.list (.record instanceFields) [webInstance])
  (((emptyConfig.setSlot "version" (.text "0.1")).setSlot "sandboxes" (.map (.oneOf .sandbox)
    [("docker", dockerSandbox)])).setSlot "servers" (.list (.record server) [webServer])).setSlot
      "spec" spec

theorem hasShape_entry {e : Shape} {v : Value} (h : HasShape v e) (key : String) :
    HasShape (.map e [(key, v)]) (.map e) :=
  .map (Keyed.ordered_cons.mpr ⟨by simp, Keyed.ordered_nil⟩) (by simpa using h)

theorem hasShape_item {e : Shape} {v : Value} (h : HasShape v e) :
    HasShape (.list e [v]) (.list e) :=
  .list (by simp [Segment.indexMax]) (by simpa using h)

theorem hasShape_webServer : HasShape webServer (.record server) := by
  have hfile : HasShape ((Shape.record serverConfig).zero.setSlot "file" (.text "/etc/web.conf"))
      (.record serverConfig) := .record (.cons (.text _) (.cons (hasShape_emptyMap _) .nil))
  exact .record (.cons (.text _) (.cons (.text _) (.cons (.int (by decide))
    (.cons (hasShape_entry hfile "main") (.cons (hasShape_emptyMap _)
      (.cons (hasShape_emptyMap _) .nil))))))

theorem hasShape_dockerSandbox : HasShape dockerSandbox (.oneOf .sandbox) :=
  .member (v := .sandbox .docker) (.cons (.text _) (.cons (hasShape_zero _)
    (.cons (hasShape_zero _) (.cons (.bool _) (.cons (hasShape_entry (.text _) "conf")
      (.cons (hasShape_emptyMap _) .nil))))))

theorem hasShape_webInstance : HasShape webInstance (.record instanceFields) := by
  have hservice : HasShape ((Shape.record serviceFields).zero.setSlot "sandbox" (.text "docker"))
      (.record serviceFields) :=
    .record (.cons (hasShape_zero _) (.cons (.text _) (.cons (hasShape_emptyList _)
      (.cons (hasShape_zero _) (.cons (hasShape_zero _) .nil)))))
  have henvironment : HasShape (Variant.environment .host).zero (.oneOf .environment) :=
    .member (v := .environment .host) (slotsHave_zero _)
  exact .record (.cons (.text _) (.cons (hasShape_zero _) (.cons (hasShape_entry hservice "web")
    (.cons (hasShape_entry henvironment "local") (.cons (hasShape_emptyList _)
      (.cons (.int (by decide)) .nil))))))

theorem isConfig_webConfig : IsConfig webConfig := by
  have hspec : HasShape ((Shape.record spec).zero.setSlot "instances"
      (.list (.record instanceFields) [webInstance])) (.record spec) :=
    .record (.cons (.text _) (.cons (hasShape_item hasShape_webInstance) .nil))
  exact .record (.cons (.text _) (.cons (.text _) (.cons (.text _)
    (.cons (hasShape_entry hasShape_dockerSandbox "docker")
      (.cons (hasShape_item hasShape_webServer) (.cons hspec .nil))))))

theorem restorable_webConfig : Restorable rigFiles webConfig where
  config := isConfig_webConfig
  version := rfl
  sandboxes := by
    intro key s hs
    obtain ⟨rfl, rfl⟩ := Prod.mk.inj (List.mem_singleton.mp hs)
    exact ⟨.docker, rfl, rfl⟩
  dirs := by
    intro key s hs
    obtain ⟨rfl, rfl⟩ := Prod.mk.inj (List.mem_singleton.mp hs)
    exact ⟨_, rfl, "conf", by decide, by decide⟩
  instances := by
    intro i hi
    obtain rfl := List.mem_singleton.mp hi
    refine ⟨rfl, ?_, ?_⟩
    · intro key e he
      obtain ⟨rfl, rfl⟩ := Prod.mk.inj (List.mem_singleton.mp he)
      exact ⟨.host, rfl, rfl⟩
    · intro key s hs
      obtain ⟨rfl, rfl⟩ := Prod.mk.inj (List.mem_singleton.mp hs)
      exact ⟨"docker", by decide, rfl⟩
  path _ _ _ _ _ := path_of_all (by decide +kernel)

/-- In place of a configuration with another server, and in a document elsewhere, a strict walker
    gives the configuration back. -/
theorem config_restored_web :
    let w := Walker.fresh ⟨rigFiles, .standard, true⟩
    Restorable rigFiles webConfig ∧ Built oneServer (.record Rig.config) ∧
      (w.config "elsewhere/main.yaml" webConfig.toData oneServer).1 = .ok webConfig :=
  ⟨restorable_webConfig, isConfig_oneServer.built,
    config_restored rfl restorable_webConfig "elsewhere/main.yaml" isConfig_oneServer.built⟩

end Walker

end Testbed

import Testbed.Proofs.Binding.Settled
import Testbed.Proofs.Rig.Compiled

/-!
# One document after the other

Without overwrites, documents are resolved if each of them is bound on its own, and otherwise the
first that is not says what is wrong. What they are resolved to is the join of what they are bound
to: lists one behind the other, the last text that is not empty, the last entry under each key
(`resolve_joined`).
-/

namespace Testbed

namespace Rig

open Value Binding Walk

variable {context : Context} {c c' x : Value} {configs : List Value}

/-! ## §1 Joins -/

theorem spec_fixed : (Shape.record spec).isFixed = true := by
  decide

/-- The last of some texts that is not empty, if there is one. -/
def lastText (texts : List String) : String :=
  (texts.reverse.find? (· ≠ "")).getD ""

@[simp] theorem lastText_singleton (t : String) : lastText [t] = t := by
  by_cases ht : t = "" <;> simp [lastText, ht]

/-- A text at the end counts, unless it is empty. -/
theorem lastText_append (texts : List String) (t : String) :
    lastText (texts ++ [t]) = if t = "" then lastText texts else t := by
  by_cases ht : t = "" <;> simp [lastText, ht]

/-- The workspace of a configuration. -/
def workspace (c : Value) : String :=
  ((c.slot? "spec").map (textAt "workspace")).getD ""

/-- Whether a configuration says what others say together, the later ones counting. -/
structure Joined (configs : List Value) (c : Value) : Prop where
  built : Built c (.record config)
  servers : c.servers = configs.flatMap servers
  instances : c.instances = configs.flatMap instances
  version : c.textAt "version" = lastText (configs.map (textAt "version"))
  name : c.textAt "name" = lastText (configs.map (textAt "name"))
  description : c.textAt "description" = lastText (configs.map (textAt "description"))
  workspace : workspace c = lastText (configs.map workspace)
  /-- The entry of a sandbox is that of the last configuration that has one. -/
  sandbox : ∀ key, Keyed.get? key c.sandboxes =
    configs.reverse.findSome? fun c => Keyed.get? key c.sandboxes
  /-- There are no sandboxes but those of the configurations. -/
  keys : ∀ key, key ∈ Keyed.keys c.sandboxes ↔ ∃ c' ∈ configs, key ∈ Keyed.keys c'.sandboxes
  /-- No key comes twice. -/
  order : Keyed.Ordered c.sandboxes

theorem sandboxes_mem :
    (⟨"Config", "sandboxes", "sandboxes,factory=sandboxes"⟩, .map (.oneOf .sandbox)) ∈ config :=
  List.mem_of_getElem? (i := 3) rfl

/-- The sandboxes of a configuration are in the order of their keys. -/
theorem ordered_sandboxes (h : Built c (.record config)) : Keyed.Ordered c.sandboxes :=
  h.ordered_entries config_tidy sandboxes_mem

/-- A single configuration is joined from itself. -/
theorem joined_singleton (h : Built c (.record config)) : Joined [c] c where
  built := h
  servers := by simp
  instances := by simp
  version := by simp
  name := by simp
  description := by simp
  workspace := by simp
  sandbox key := by cases hget : Keyed.get? key c.sandboxes <;> simp [hget]
  keys key := by simp
  order := ordered_sandboxes h

section

variable (h : Built c (.record config)) (h' : Built c' (.record config))

include h h'

/-- A text of a configuration is merged as a text. -/
theorem textAt_merge {f : Field} (hf : (f, .text) ∈ config)
    (hjoined : c.textAt f.ident = lastText (configs.map (textAt f.ident))) :
    (c.merge c').textAt f.ident = lastText ((configs ++ [c']).map (textAt f.ident)) := by
  rw [List.map_append, List.map_singleton, lastText_append, ← hjoined]
  exact text_slot_merge config_tidy config_fixed h h' hf

/-- The servers of two configurations are put one after the other. -/
theorem servers_merge : (c.merge c').servers = c.servers ++ c'.servers :=
  items_slot_merge config_tidy config_fixed h h' (f := ⟨"Config", "servers", "servers,loadable"⟩)
    (List.mem_of_getElem? (i := 4) rfl)

/-- The sandboxes of two configurations are put together by their keys. -/
theorem sandboxes_merge : (c.merge c').sandboxes = Keyed.union c.sandboxes c'.sandboxes :=
  entries_slot_merge config_tidy config_fixed h h' sandboxes_mem

/-- What is in the specification of two merged configurations is merged in turn. -/
theorem spec_merge :
    (c.merge c').instances = c.instances ++ c'.instances ∧
      workspace (c.merge c') = if workspace c' = "" then workspace c else workspace c' := by
  obtain ⟨x, y, hx, hy, hbx, hby, hmerge⟩ := slot?_merge config_tidy config_fixed h h'
    (f := ⟨"Config", "spec", "spec"⟩) (List.mem_of_getElem? (i := 5) rfl)
  simp only [instances, workspace, hx, hy, hmerge, Option.bind_some, Option.map_some,
    Option.getD_some]
  constructor
  · exact items_slot_merge spec_tidy spec_fixed hbx hby
      (f := ⟨"Spec", "instances", "instances,loadable"⟩) (List.mem_of_getElem? (i := 1) rfl)
  · exact text_slot_merge spec_tidy spec_fixed hbx hby
      (f := ⟨"Spec", "workspace", "workspace"⟩) (List.mem_of_getElem? (i := 0) rfl)

end

/-- One more configuration is joined by merging it. -/
theorem Joined.merge (h : Joined configs c) (h' : Built c' (.record config)) :
    Joined (configs ++ [c']) (c.merge c') := by
  obtain ⟨hinstances, hworkspace⟩ := spec_merge h.built h'
  have horder' := ordered_sandboxes h'
  have hsandboxes := sandboxes_merge h.built h'
  constructor
  case built => exact h.built.merge config_fixed h'
  case servers => simp [servers_merge h.built h', h.servers]
  case instances => simp [hinstances, h.instances]
  case version => exact textAt_merge h.built h' versionField_mem h.version
  case name =>
    exact textAt_merge h.built h' (f := ⟨"Config", "name", "name"⟩)
      (List.mem_of_getElem? (i := 1) rfl) h.name
  case description =>
    exact textAt_merge h.built h' (f := ⟨"Config", "description", "description"⟩)
      (List.mem_of_getElem? (i := 2) rfl) h.description
  case workspace =>
    rw [hworkspace, h.workspace, List.map_append, List.map_singleton, lastText_append]
  case sandbox =>
    intro key
    rw [hsandboxes, Keyed.get?_union horder'.nodup_keys, h.sandbox, List.reverse_append]
    cases hget : Keyed.get? key c'.sandboxes <;> simp [hget]
  case keys =>
    intro key
    rw [hsandboxes, ← Keyed.has_iff_mem_keys, Keyed.has_union horder'.nodup_keys,
      Bool.or_eq_true, Keyed.has_iff_mem_keys, Keyed.has_iff_mem_keys, h.keys]
    simp [or_and_right, exists_or]
  case order =>
    rw [hsandboxes]
    exact h.order.union _

/-- Configurations are joined by merging them in order. -/
theorem Joined.foldl {others : List Value} (h : Joined configs c)
    (hothers : ∀ c' ∈ others, Built c' (.record config)) :
    Joined (configs ++ others) (others.foldl Value.merge c) := by
  induction others generalizing configs c with
  | nil => simpa using h
  | cons c' rest ih =>
    obtain ⟨hc', hrest⟩ := List.forall_mem_cons.mp hothers
    simpa using ih (h.merge hc') hrest

/-- Merged configurations are joined, by induction on how many there are. -/
theorem joined_of_mergeAll? (hbuilt : ∀ c ∈ configs, Built c (.record config))
    (h : mergeAll? configs = some c) : Joined configs c := by
  cases configs with
  | nil => cases h
  | cons first others =>
    obtain ⟨hfirst, hothers⟩ := List.forall_mem_cons.mp hbuilt
    obtain rfl := Option.some.inj h
    exact (joined_singleton hfirst).foldl hothers

/-! ## §2 Documents -/

/-- What a document is bound to is built as a configuration. -/
theorem built_of_bindDocument {d : Document} (h : bindDocument context d = .ok c) :
    Built c (.record config) :=
  (bound_of_bindDocument h).built isConfig_empty.built

/-- Without overwrites documents stand for what they are bound to, merged. -/
theorem resolve_nil (documents : List Document) :
    resolve context documents [] = (documents.mapM (bindDocument context) >>= fun configs =>
      (mergeAll? configs).elim (.error (.cause .nothingToMerge)) .ok) := by
  rw [resolve]
  congr 1
  funext configs
  cases mergeAll? configs <;> rfl

/-- What some documents are bound to can be merged. -/
theorem exists_resolve_eq_ok {documents : List Document} (h : documents ≠ [])
    (hconfigs : documents.mapM (bindDocument context) = .ok configs) :
    ∃ c, mergeAll? configs = some c ∧ resolve context documents [] = .ok c := by
  cases configs with
  | nil => exact absurd (List.length_eq_zero_iff.mp (length_of_mapM hconfigs).symm) h
  | cons first others =>
    refine ⟨_, rfl, ?_⟩
    rw [resolve_nil, hconfigs]
    rfl

/-- Without overwrites, documents are resolved if each of them is bound on its own, and the first
    that is not says what is wrong. They are resolved to the join of what they are bound to. -/
theorem resolve_joined {documents : List Document} (h : documents ≠ []) :
    ((∃ c, resolve context documents [] = .ok c) ↔
      ∀ d ∈ documents, ∃ c, bindDocument context d = .ok c) ∧
    (∀ e, resolve context documents [] = .error e ↔ ∃ before d after,
      documents = before ++ d :: after ∧
        (∀ d' ∈ before, ∃ c, bindDocument context d' = .ok c) ∧
        bindDocument context d = .error e) ∧
    ∀ configs c, List.Forall₂ (fun d c => bindDocument context d = .ok c) documents configs →
      resolve context documents [] = .ok c → Joined configs c := by
  refine ⟨⟨?_, ?_⟩, ?_, ?_⟩
  · rintro ⟨c, hc⟩
    rw [resolve_nil] at hc
    obtain ⟨configs, hconfigs, -⟩ := exists_ok_of_bind hc
    exact exists_ok_of_mapM hconfigs
  · intro heach
    obtain ⟨configs, hconfigs⟩ := exists_mapM_eq_ok heach
    obtain ⟨c, -, hc⟩ := exists_resolve_eq_ok h hconfigs
    exact ⟨c, hc⟩
  · intro e
    rw [← mapM_eq_error_iff, resolve_nil]
    cases hconfigs : documents.mapM (bindDocument context) with
    | error e' =>
      -- one error, of a computation that would give a list and of one that would give a value
      show (Except.error e' : Except Error Value) = .error e ↔ Except.error e' = .error e
      rw [Except.error.injEq, Except.error.injEq]
    | ok configs =>
      obtain ⟨c, hc, -⟩ := exists_resolve_eq_ok h hconfigs
      rw [ok_bind, hc, Option.elim_some]
      simp
  · intro configs c hall hc
    have hconfigs := mapM_eq_ok_iff.mpr hall
    obtain ⟨merged, hmerged, hresolve⟩ := exists_resolve_eq_ok h hconfigs
    obtain rfl := Except.ok.inj (hc.symm.trans hresolve)
    refine joined_of_mergeAll? (fun c hc => ?_) hmerged
    obtain ⟨d, -, hd⟩ := exists_mem_of_mapM hconfigs c hc
    exact built_of_bindDocument hd

/-- A document with a server. -/
def serving (name : String) : Document :=
  ⟨"main.yaml", [("name", .text name), ("servers", .list [.map [("name", .text name)]])]⟩

/-- Two documents with a server each are resolved to both servers, under the later name. -/
theorem resolve_joined_serving :
    ∃ c, resolve withoutFiles [serving "web", serving "cache"] [] = .ok c ∧
      c.servers.map (textAt "name") = ["web", "cache"] ∧ c.textAt "name" = "cache" := by
  have hne : [serving "web", serving "cache"] ≠ [] := List.cons_ne_nil _ _
  obtain ⟨hsuccess, -, hjoined⟩ := @resolve_joined withoutFiles _ hne
  have hweb : ((bindDocument withoutFiles (serving "web")).toOption.map fun c =>
      c.servers.map (textAt "name")) = some ["web"] := by decide +kernel
  have hcache : ((bindDocument withoutFiles (serving "cache")).toOption.map fun c =>
      (c.servers.map (textAt "name"), c.textAt "name")) = some (["cache"], "cache") := by
    decide +kernel
  obtain ⟨c₁, hc₁, hservers₁⟩ := Option.map_eq_some_iff.mp hweb
  obtain ⟨c₂, hc₂, hboth⟩ := Option.map_eq_some_iff.mp hcache
  obtain ⟨hservers₂, hname₂⟩ := Prod.mk.inj hboth
  have hbind₁ := ok_of_toOption_eq_some hc₁
  have hbind₂ := ok_of_toOption_eq_some hc₂
  obtain ⟨c, hc⟩ := hsuccess.mpr (by simp [hbind₁, hbind₂])
  have hall := hjoined [c₁, c₂] c (.cons hbind₁ (.cons hbind₂ .nil)) hc
  refine ⟨c, hc, ?_, ?_⟩
  · simp [hall.servers, hservers₁, hservers₂]
  · simp [hall.name, lastText, hname₂]

end Rig

end Testbed

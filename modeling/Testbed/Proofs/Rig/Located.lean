import Testbed.Proofs.Binding.Strictness
import Testbed.Rig.Resolve

/-!
# Where errors are

What goes wrong is reported with its place, and the place is reported once. An error of a document
that is bound says where its cause is, in this document or in one that is loaded and cannot be bound
for the cause; an error of an overwrite says which overwrite was tried; and resolving adds nothing
to either (`resolve_located`). Without documents there is nothing to merge, which has no place.
-/

namespace Testbed

open Binding Walk

/-! ## §1 Documents -/

/-- Whether a document is loaded while another one is bound as a record, and cannot be bound
    itself. -/
def Document.Fails (context : Context) (fs : Fields) (start d : Document) (cause : Cause) : Prop :=
  ∃ p s v n, Place.Reaches context.files (start.placeAs fs) p ∧ p.Loads context.files d s ∧
    Value.Built v s ∧ ((Deeper.level context n).assign d.path d.data v).outcome = .error cause

/-- Whether an error of data that is bound as a record says once where its cause is: in the document
    that is bound, or in one that is loaded and cannot be bound for the cause. -/
def Error.IsPlaced (context : Context) (fs : Fields) (path : Path) (data : Data) (e : Error) :
    Prop :=
  ∃ document location cause, e = .located document location (.cause cause) ∧
    (document = path ∨
      ∃ es d, data = .map es ∧ d.path = document ∧ Document.Fails context fs ⟨path, es⟩ d cause)

/-- An error that a walk blames at its place is placed in the document. -/
theorem isPlaced_of_blames {context : Context} {fs : Fields} {path : Path}
    {es : List (String × Data)} {e : Error}
    (h : Place.Blames context ((⟨path, es⟩ : Document).placeAs fs) e) :
    e.IsPlaced context fs path (.map es) := by
  cases h with
  | here location cause => exact ⟨path, location, cause, rfl, .inl rfl⟩
  | @loaded p d s v n cause location hp hload hv hfails =>
    exact ⟨d.path, location, cause, rfl, .inr ⟨es, d, rfl, rfl, p, s, v, n, hp, hload, hv, hfails⟩⟩

namespace Walker

variable {context : Context} {fs : Fields} {path : Path} {data : Data} {target : Value}

/-- What a walk of a record from the outside gives. -/
theorem config_record (w : Walker) (path : Path) (es : List (String × Data))
    (variant : Option Variant) (slots : Slots) :
    (w.config path (.map es) (.record variant slots)).1 =
      match recordInside w.context (Deeper.level w.context maxDepth) path es slots .outside with
      | .ok filled _ => .ok (.record variant filled)
      | .error e _ => .error e := by
  simp only [config, run, Bind.bind, EStateM.bind, Nat.sub_zero]
  cases recordInside w.context (Deeper.level w.context maxDepth) path es slots .outside <;> rfl

/-- A walker and one that takes unknown keys give the same, or the first of them gives an error that
    is placed, and then so does the second, or the error refuses a key. -/
theorem config_stricter (hfactories : context.factories = .standard) {w w' : Walker}
    (hw : w.context = context) (hw' : w'.context = context.withStrict false) (path : Path)
    (data : Data) (hv : target.BoundAs (.record fs)) :
    (∃ c, (w.config path data target).1 = .ok c ∧ (w'.config path data target).1 = .ok c) ∨
      ∃ e, (w.config path data target).1 = .error e ∧ e.IsPlaced context fs path data ∧
        ((∃ e', (w'.config path data target).1 = .error e') ∨
          ∃ es, data = .map es ∧
            Place.RefusesKey context.files ((⟨path, es⟩ : Document).placeAs fs) e) := by
  cases data with
  | map es =>
    obtain ⟨variant, slots, rfl, hslots⟩ := hv.exists_record
    rw [config_record, config_record, hw, hw']
    rcases (Place.strictness context).record hfactories ⟨path, es⟩ es hslots maxDepth .outside with
      ⟨filled, m, hfilled, hfilled'⟩ | ⟨e, m, he, hblames, hstop⟩
    · exact .inl ⟨.record variant filled, by simp only [hfilled], by simp only [hfilled']⟩
    · refine .inr ⟨e, by simp only [he], isPlaced_of_blames hblames, hstop.symm.imp ?_ ?_⟩
      · rintro ⟨e', m', he'⟩
        exact ⟨e', by simp only [he']⟩
      · exact fun hrefuses => ⟨es, rfl, hrefuses⟩
  | _ => exact .inr ⟨_, rfl, ⟨path, _, _, rfl, .inl rfl⟩, .inl ⟨_, rfl⟩⟩

/-- Every error of data that is bound as a record is placed, whatever the record declares. -/
theorem isPlaced_of_config (hfactories : context.factories = .standard) {w : Walker}
    (hw : w.context = context) {e : Error} (hv : target.BoundAs (.record fs))
    (he : (w.config path data target).1 = .error e) : e.IsPlaced context fs path data := by
  have hlax : (Walker.fresh (context.withStrict false)).context = context.withStrict false := rfl
  rcases config_stricter hfactories hw hlax path data hv with ⟨c, hc, -⟩ | ⟨e', he', hplaced, -⟩
  · cases hc.symm.trans he
  · obtain rfl := Except.error.inj (he'.symm.trans he)
    exact hplaced

end Walker

/-! ## §2 Overwrites -/

namespace Value

/-- An overwrite that fails names its route and its text, and one cause. -/
theorem fault_overwrite {route raw : String} {target : Value} {e : Error}
    (h : (overwrite route raw target).fault = some e) :
    ∃ cause, e = .overwrite route raw (.cause cause) := by
  unfold overwrite at h
  split at h
  · obtain ⟨cause, -, rfl⟩ := Option.map_eq_some_iff.mp h
    exact ⟨cause, rfl⟩
  · next cause _ => exact ⟨cause, (Option.some.inj h).symm⟩

/-- Where overwrites fail, one of them has failed, and it is named. -/
theorem fault_overwriteAll {pairs : List (String × String)} {target : Value} {e : Error}
    (h : (overwriteAll pairs target).fault = some e) :
    ∃ p ∈ pairs, ∃ cause, e = .overwrite p.1 p.2 (.cause cause) := by
  induction pairs generalizing target with
  | nil => cases h
  | cons p rest ih =>
    rw [overwriteAll] at h
    split at h
    · obtain ⟨q, hq, hcause⟩ := ih h
      exact ⟨q, List.mem_cons_of_mem _ hq, hcause⟩
    · exact ⟨p, List.mem_cons_self, fault_overwrite h⟩

end Value

/-! ## §3 Resolving -/

namespace Rig

variable {context : Context}

/-- What stops a document from being bound is placed. -/
theorem isPlaced_of_bindDocument (hfactories : context.factories = .standard) {d : Document}
    {e : Error} (h : bindDocument context d = .error e) : e.IsPlaced context config d.path d.data :=
  Walker.isPlaced_of_config (w := .fresh context) hfactories rfl (.built Value.isConfig_empty.built)
    h

/-- What goes wrong while resolving went wrong in one of the documents, or with one of the
    overwrites, or there were no documents. -/
theorem resolve_error_cases {documents : List Document} {overwrites : List (String × String)}
    {e : Error} (h : resolve context documents overwrites = .error e) :
    (∃ d ∈ documents, bindDocument context d = .error e) ∨
      (∃ p ∈ overwrites, ∃ cause, e = .overwrite p.1 p.2 (.cause cause)) ∨
      documents = [] ∧ e = .cause .nothingToMerge := by
  rw [resolve] at h
  cases hconfigs : documents.mapM (bindDocument context) with
  | error e' =>
    rw [hconfigs] at h
    obtain rfl := Except.error.inj h
    exact .inl (exists_mem_of_mapM_error hconfigs)
  | ok configs =>
    rw [hconfigs, ok_bind] at h
    cases configs with
    | nil =>
      have hnil := List.length_eq_zero_iff.mp (length_of_mapM hconfigs).symm
      exact .inr (.inr ⟨hnil, (Except.error.inj h).symm⟩)
    | cons first others =>
      simp only [Value.mergeAll?] at h
      split at h
      · cases h
      · next e' he' =>
        obtain rfl := Except.error.inj h
        obtain ⟨p, hp, hcause⟩ := Value.fault_overwriteAll he'
        exact .inr (.inl ⟨p, hp, hcause⟩)

/-- Every error of data that is bound as a record, whatever the record declares, says once where its
    cause is, every error of an overwrite says which it is, and every error of resolving is one of
    these, or there are no documents. -/
theorem resolve_located (hfactories : context.factories = .standard) :
    (∀ (w : Walker) path data fs target e, w.context = context →
      Value.BoundAs target (.record fs) → (w.config path data target).1 = .error e →
        e.IsPlaced context fs path data) ∧
    (∀ route raw target e, (Value.overwrite route raw target).fault = some e →
      ∃ cause, e = .overwrite route raw (.cause cause)) ∧
    (∀ documents overwrites e, resolve context documents overwrites = .error e →
      (∃ d ∈ documents, e.IsPlaced context config d.path d.data) ∨
        (∃ p ∈ overwrites, ∃ cause, e = .overwrite p.1 p.2 (.cause cause)) ∨
        e = .cause .nothingToMerge) ∧
    ∀ documents overwrites,
      resolve context documents overwrites = .error (.cause .nothingToMerge) ↔ documents = [] := by
  refine ⟨?_, ?_, ?_, ?_⟩
  · intro w path data fs target e hw hv he
    exact Walker.isPlaced_of_config hfactories hw hv he
  · intro route raw target e he
    exact Value.fault_overwrite he
  · intro documents overwrites e he
    rcases resolve_error_cases he with ⟨d, hd, hbind⟩ | hoverwrite | ⟨-, hnothing⟩
    · exact .inl ⟨d, hd, isPlaced_of_bindDocument hfactories hbind⟩
    · exact .inr (.inl hoverwrite)
    · exact .inr (.inr hnothing)
  · intro documents overwrites
    constructor
    · intro he
      rcases resolve_error_cases he with ⟨d, -, hbind⟩ | ⟨p, -, cause, hcause⟩ | ⟨hnil, -⟩
      · obtain ⟨document, location, cause, hcause, -⟩ := isPlaced_of_bindDocument hfactories hbind
        cases hcause
      · cases hcause
      · exact hnil
    · rintro rfl
      rfl

/-- A file with a server whose port is the text `x`. -/
def serverFiles : FileSystem :=
  (StoredFiles.empty.insert "/etc/rig/servers/web.json"
    [123, 34, 112, 111, 114, 116, 34, 58, 34, 120, 34, 125]).fileSystem

/-- A document that loads its servers. -/
def loadsServers : Document :=
  ⟨"/etc/rig/main.yaml", [("servers", .text "servers/*.json")]⟩

/-- What is wrong in a file that is loaded is reported there. -/
theorem resolve_located_server :
    let context : Context := ⟨serverFiles, .standard, false⟩
    ∃ location d, d.path = "/etc/rig/servers/web.json" ∧
      resolve context [loadsServers] [] =
        .error (.located d.path location (.cause (.mismatch "u16" "string"))) ∧
      Document.Fails context config loadsServers d (.mismatch "u16" "string") := by
  intro context
  have herror : error? (resolve context [loadsServers] []) =
      some (.located "/etc/rig/servers/web.json" "servers[0].port"
        (.cause (.mismatch "u16" "string"))) := by decide +kernel
  have hresolve := error_of_error?_eq_some herror
  have hfactories : context.factories = .standard := rfl
  obtain ⟨-, -, herrors, -⟩ := resolve_located hfactories
  rcases herrors _ _ _ hresolve with ⟨d, hd, hplaced⟩ | ⟨p, hp, -⟩ | hnothing
  · obtain rfl := List.mem_singleton.mp hd
    obtain ⟨document, location, cause, heq, hdocument⟩ := hplaced
    obtain ⟨rfl, rfl, hcause⟩ := Error.located.inj heq
    obtain rfl := Error.cause.inj hcause
    rcases hdocument with hmain | ⟨es, d, hes, hpath, hfails⟩
    · exact absurd hmain (by decide)
    · obtain rfl := Data.map.inj hes
      exact ⟨_, d, hpath, hpath ▸ hresolve, hfails⟩
  · cases hp
  · cases hnothing

end Rig

end Testbed

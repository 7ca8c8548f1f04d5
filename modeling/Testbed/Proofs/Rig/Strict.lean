import Testbed.Proofs.Rig.Located

/-!
# Refusing unknown keys

A strict walker refuses keys that name no field, and does nothing else: what it gives, a lax one
gives as well, and what a lax one refuses, it refuses (`Walker.config_strict`). Where it alone
stops, it has come to a map in one of the documents that is bound as a record, and names a key of
the map that no field of the record has.
-/

namespace Testbed

open Binding

/-! ## §1 Documents on the way -/

namespace Place

variable {files : FileSystem} {p q : Place}

/-- A walk stays in its document, or has come to one that is loaded. -/
theorem Reaches.document (h : Reaches files p q) :
    q.document = p.document ∨ ∃ r s, Reaches files p r ∧ r.Loads files q.document s := by
  induction h with
  | refl => exact .inl rfl
  | tail hreach hstep ih =>
    cases hstep with
    | load hload => exact .inr ⟨_, _, hreach, hload⟩
    | _ => exact ih

end Place

/-! ## §2 Strict walkers -/

namespace Walker

/-- Whether an error refuses a key of a map that stands in a document and is bound as a record: the
    document is the one that is walked, or it is loaded on the way; no field of the record, its own
    or one of those it refines, has the key as its name; and the location ends with the key. -/
def RefusesUnknown (files : FileSystem) (start : Document) (e : Error) : Prop :=
  ∃ (document : Document) (fs : Fields) (es : List (String × Data)) (before key : String),
    e = .located document.path (before ++ key) (.cause (.unknownKey key)) ∧
    (document = start ∨
      ∃ p s, Place.Reaches files start.place p ∧ p.Loads files document s) ∧
    Place.Reaches files start.place ⟨document, .value (.record fs), .map es⟩ ∧
    (Data.map es).Within document.data ∧ key ∈ Keyed.keys es ∧
    ∀ f s, (f, s) ∈ fs → f.documentName? ≠ some key

/-- A key that a walk of a document refuses is unknown where it stands. -/
theorem refusesUnknown_of_refusesKey {files : FileSystem} {start : Document} {e : Error}
    (h : Place.RefusesKey files start.place e) : RefusesUnknown files start e := by
  cases h with
  | @mk document fs es before key hreach hkey hunknown =>
    refine ⟨document, fs, es, before, key, rfl, hreach.document, hreach,
      Place.within_of_not_knows hreach hkey hunknown, hkey, ?_⟩
    exact fun f s hf hname => hunknown ⟨f, s, hf, hname⟩

/-- What a strict walker gives a lax one gives as well, and what a lax one refuses a strict one
    refuses. Where the strict one alone stops, it refuses a key that names no field. -/
theorem config_strict {files : FileSystem} {w w' : Walker}
    (hw : w.context = ⟨files, .standard, true⟩) (hw' : w'.context = ⟨files, .standard, false⟩)
    (path : Path) (data : Data) {target : Value} (hv : target.Built (.record Rig.config)) :
    (∀ c, (w.config path data target).1 = .ok c → (w'.config path data target).1 = .ok c) ∧
    ((∃ e, (w'.config path data target).1 = .error e) →
      ∃ e, (w.config path data target).1 = .error e) ∧
    ∀ c e, (w'.config path data target).1 = .ok c → (w.config path data target).1 = .error e →
      ∃ es, data = .map es ∧ RefusesUnknown files ⟨path, es⟩ e := by
  have hstricter := config_stricter rfl hw hw' path data (.built hv)
  refine ⟨?_, ?_, ?_⟩
  · intro c hc
    rcases hstricter with ⟨c', hstrict, hlax⟩ | ⟨e, he, -, -⟩
    · obtain rfl := Except.ok.inj (hstrict.symm.trans hc)
      exact hlax
    · cases he.symm.trans hc
  · rintro ⟨e, he⟩
    rcases hstricter with ⟨c, -, hlax⟩ | ⟨e', he', -, -⟩
    · cases hlax.symm.trans he
    · exact ⟨e', he'⟩
  · intro c e hlax hstrict
    rcases hstricter with ⟨c', hc', -⟩ | ⟨e', he', -, ⟨e'', he''⟩ | ⟨es, hes, hrefuses⟩⟩
    · cases hc'.symm.trans hstrict
    · cases he''.symm.trans hlax
    · obtain rfl := Except.error.inj (he'.symm.trans hstrict)
      exact ⟨es, hes, refusesUnknown_of_refusesKey hrefuses⟩

/-- A misspelt port of a server is refused by a strict walker alone. -/
theorem config_strict_port :
    let strict := Walker.fresh ⟨StoredFiles.empty.fileSystem, .standard, true⟩
    let lax := Walker.fresh ⟨StoredFiles.empty.fileSystem, .standard, false⟩
    let es : List (String × Data) := [("servers", .list [.map [("prot", .int 8080)]])]
    let e : Error := .located "main.yaml" "servers[0].prot" (.cause (.unknownKey "prot"))
    (∃ c, (lax.config "main.yaml" (.map es) Value.emptyConfig).1 = .ok c) ∧
      (strict.config "main.yaml" (.map es) Value.emptyConfig).1 = .error e ∧
      RefusesUnknown StoredFiles.empty.fileSystem ⟨"main.yaml", es⟩ e := by
  intro strict lax es e
  have hlax : (lax.config "main.yaml" (.map es) Value.emptyConfig).1.toOption.isSome = true := by
    decide +kernel
  have hstrict : error? (strict.config "main.yaml" (.map es) Value.emptyConfig).1 = some e := by
    decide +kernel
  obtain ⟨c, hc⟩ := Option.isSome_iff_exists.mp hlax
  have hok := ok_of_toOption_eq_some hc
  have herror := error_of_error?_eq_some hstrict
  have hbuilt : Value.emptyConfig.Built (.record Rig.config) := Value.isConfig_empty.built
  have hstrictly : strict.context = ⟨StoredFiles.empty.fileSystem, .standard, true⟩ := rfl
  have hlaxly : lax.context = ⟨StoredFiles.empty.fileSystem, .standard, false⟩ := rfl
  obtain ⟨-, -, halone⟩ := config_strict hstrictly hlaxly "main.yaml" (.map es) hbuilt
  obtain ⟨es', hes, hrefuses⟩ := halone c e hok herror
  obtain rfl := Data.map.inj hes
  exact ⟨⟨c, hok⟩, herror, hrefuses⟩

end Walker

end Testbed

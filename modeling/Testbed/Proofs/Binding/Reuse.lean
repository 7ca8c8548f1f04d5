import Testbed.Proofs.Binding.Alike
import Testbed.Proofs.Rig.Kinds

/-!
# One walker for many documents

Binding fills a value that is there already. Where no member of a family stands in it outside of
lists and maps, binding does not tell it apart from the zero value of its shape
(`Deeper.level_blind`), and a configuration is such a value; so a document is bound in place of any
configuration as in place of the empty one (`Walker.config_forgets`).

A walker starts every configuration outside of everything and at no depth. So one walker that binds
documents one after the other into one target, some of them in vain, comes to what fresh walkers
come to (`Walker.binds_iff`).
-/

namespace Testbed

open Value

namespace Binding

variable {slots : Slots} {fs : Fields}

/-! ## §1 What was there before -/

/-- The names of fields in documents do not depend on what the fields hold. -/
theorem documentNames_forgets (h : SlotsBuilt slots fs) :
    documentNames slots = documentNames (Fields.zero fs) := by
  induction slots generalizing fs with
  | nil => cases h; rfl
  | cons e rest ih =>
    cases h with
    | cons _ hslots =>
      rw [documentNames, ih hslots]
      rfl

end Binding

/-! ## §2 Walkers -/

namespace Walker

open Value

variable {w : Walker} {target made : Value} {path : Path} {data : Data}
  {documents : List (Path × Data)} {outcomes : List (Except Error Value)}

/-- Binding a document leaves the walker's files and factories. -/
theorem context_config (w : Walker) (path : Path) (data : Data) (target : Value) :
    (w.config path data target).2.context = w.context := by
  simp only [config, run]
  split <;> rfl

/-- A document is bound in place of a configuration as a fresh walker binds it in place of the empty
    one. -/
theorem config_forgets (w : Walker) (path : Path) (data : Data)
    (h : Built target (.record Rig.config)) :
    (w.config path data target).1 = ((fresh w.context).config path data emptyConfig).1 := by
  have hfixed : fieldsFixed Rig.config = true := Rig.config_fixed
  cases h with
  | @record _ slots hslots =>
    cases data with
    | map es =>
      have hsame : Binding.recordInside w.context (Deeper.level w.context maxDepth) path es slots =
          Binding.recordInside w.context (Deeper.level w.context maxDepth) path es
            (Fields.zero Rig.config) :=
        Binding.recordInside_alike maxDepth path es (hslots.alike_zero hfixed)
      simp only [config, run, fresh, Nat.sub_zero, emptyConfig, hsame]
    | _ => rfl

/-- What is bound into a configuration is one. -/
theorem config_builds (htarget : Built target (.record Rig.config))
    (h : (w.config path data target).1 = .ok made) : Built made (.record Rig.config) := by
  rw [config_forgets w path data htarget] at h
  cases data with
  | map es => exact (Rig.bound_of_bindDocument (d := ⟨path, es⟩) h).built isConfig_empty.built
  | _ => cases h

/-- What a walker comes to with documents that it binds one after the other into one target. Where
    a walk succeeds, the target is what it gives; where one fails, any configuration may be left
    there, filled in part. -/
inductive Binds : Walker → Value → List (Path × Data) → List (Except Error Value) → Prop
  | done (w : Walker) (target : Value) : Binds w target [] []
  | bound {w : Walker} {target made : Value} {path : Path} {data : Data}
      {rest : List (Path × Data)} {outcomes : List (Except Error Value)}
      (hmade : (w.config path data target).1 = .ok made)
      (hrest : Binds (w.config path data target).2 made rest outcomes) :
      Binds w target ((path, data) :: rest) (.ok made :: outcomes)
  | failed {w : Walker} {target left : Value} {path : Path} {data : Data} {e : Error}
      {rest : List (Path × Data)} {outcomes : List (Except Error Value)}
      (herror : (w.config path data target).1 = .error e)
      (hleft : Built left (.record Rig.config))
      (hrest : Binds (w.config path data target).2 left rest outcomes) :
      Binds w target ((path, data) :: rest) (.error e :: outcomes)

/-- What fresh walkers come to, each with one of the documents and an empty configuration. -/
def afresh (context : Context) (documents : List (Path × Data)) : List (Except Error Value) :=
  documents.map fun d => ((fresh context).config d.1 d.2 emptyConfig).1

theorem afresh_cons (context : Context) (path : Path) (data : Data)
    (rest : List (Path × Data)) :
    afresh context ((path, data) :: rest) =
      ((fresh context).config path data emptyConfig).1 :: afresh context rest :=
  rfl

/-- Whatever a walker has bound before, it binds documents as new walkers do. -/
theorem Binds.eq_afresh (h : Binds w target documents outcomes)
    (htarget : Built target (.record Rig.config)) : outcomes = afresh w.context documents := by
  induction h with
  | done => rfl
  | @bound w target made path data rest outcomes hmade hrest ih =>
    have hhead := (config_forgets w path data htarget).symm.trans hmade
    rw [ih (config_builds htarget hmade), context_config, afresh_cons, hhead]
  | @failed w target left path data e rest outcomes herror hleft hrest ih =>
    have hhead := (config_forgets w path data htarget).symm.trans herror
    rw [ih hleft, context_config, afresh_cons, hhead]

/-- Documents can be bound one after the other, with the outcomes that new walkers have. -/
theorem binds_afresh (w : Walker) (htarget : Built target (.record Rig.config))
    (documents : List (Path × Data)) : Binds w target documents (afresh w.context documents) := by
  induction documents generalizing w target with
  | nil => exact .done w target
  | cons d rest ih =>
    obtain ⟨path, data⟩ := d
    have hhead := config_forgets w path data htarget
    have hcontext := context_config w path data target
    rw [afresh_cons, ← hhead]
    cases h : (w.config path data target).1 with
    | ok made =>
      refine .bound h ?_
      have hrest := ih (w.config path data target).2 (config_builds htarget h)
      rwa [hcontext] at hrest
    | error e =>
      refine .failed h htarget ?_
      have hrest := ih (w.config path data target).2 htarget
      rwa [hcontext] at hrest

/-- A walker that binds documents one after the other into one configuration comes to what fresh
    walkers come to, each with a document and an empty configuration of its own, whatever the walker
    was left with and whatever the configuration holds. -/
theorem binds_iff (htarget : Built target (.record Rig.config)) :
    Binds w target documents outcomes ↔ outcomes = afresh w.context documents := by
  constructor
  · intro h
    exact h.eq_afresh htarget
  · rintro rfl
    exact binds_afresh w htarget documents

/-- A walker that was stopped inside of a list. -/
def stopped : Walker :=
  ⟨Rig.withoutFiles, "first.yaml", 2, Location.outside.openMap.openList⟩

/-- Where a server is left, a document fails at its name, and an empty one has no server. -/
theorem binds_stopped :
    let documents := [("second.yaml", .map [("name", .int 1)]), ("third.yaml", .map [])]
    let error := Error.located "second.yaml" "name" (.cause (.mismatch "string" "int"))
    Built oneServer (.record Rig.config) ∧ oneServer.servers.length = 1 ∧
      ∃ made, Binds stopped oneServer documents [.error error, .ok made] ∧ made.servers = [] := by
  intro documents error
  have hfirst : ((fresh Rig.withoutFiles).config "second.yaml" (.map [("name", .int 1)])
      emptyConfig).1 = .error error := error_of_error?_eq_some (by decide +kernel)
  have hthird : ((fresh Rig.withoutFiles).config "third.yaml" (.map []) emptyConfig).1.toOption.map
      (fun made => made.servers.isEmpty) = some true := by decide +kernel
  obtain ⟨made, hmade, hservers⟩ := Option.map_eq_some_iff.mp hthird
  refine ⟨isConfig_oneServer.built, rfl, made, ?_, List.isEmpty_iff.mp hservers⟩
  apply (binds_iff isConfig_oneServer.built).mpr
  simp only [documents, stopped, afresh_cons, hfirst, ok_of_toOption_eq_some hmade]
  rfl

end Walker

end Testbed

import Testbed.Proofs.Binding.Position
import Testbed.Proofs.Overwrite.Order
import Testbed.Rig.Resolve

/-!
# Where routes lead

A route into data at a position leads, step by step, to data at another position. What the whole
comes to is a function of what the data at the end of the route comes to, whatever stands there
(`Leads.outcome_put`); where all positions on the way have values, the function puts the one into
the other at the route. So a document is bound to the same configuration as another one that differs
from it in a place that comes to the same (`bindDocument_put_toOption`).
-/

namespace Testbed

namespace Position

variable {context : Context} {document : Path} {within : Position → Prop} {s s' : Position}
  {x : Data} {r : Route}

/-- A route from data at a position to the position that it leads to, all positions on the way being
    `within` some. -/
inductive Leads (context : Context) (within : Position → Prop) :
    Position → Data → Route → Position → Prop
  | here (s : Position) (x : Data) : Leads context within s x [] s
  | step {s s' s'' : Position} {x y : Data} {t : Step} {r : Route} (h : Enters context s x t s')
      (hwithin : within s') (hy : Data.child? t x = some y)
      (hrest : Leads context within s' y r s'') : Leads context within s x (t :: r) s''

/-- Routes keep to tidy positions. -/
theorem Leads.isTidy (h : Leads context within s x r s') (hs : s.IsTidy) : s'.IsTidy := by
  induction h with
  | here => exact hs
  | step h _ _ _ ih => exact ih (h.isTidy hs)

/-- What has something inside stands for itself at any position. -/
theorem takes_of_not_isScalar (s : Position) (hx : x.isScalar = false) : s.Takes x := by
  cases x <;> simp [Data.isScalar] at hx <;> simp [Takes]

/-- Data that can stand at the end of a route can be put there without changing what the way is read
    as. -/
theorem Leads.takes (h : Leads context within s x r s') {y : Data} (hy : s'.Takes y) :
    s.Takes (Data.put r y x) := by
  cases h with
  | here => exact hy
  | step h hwithin hchild hrest =>
    apply takes_of_not_isScalar
    rw [Data.put, Data.isScalar_setChild]
    exact Data.isScalar_of_child? hchild

/-- What the end of a route comes to is all that the whole knows of it. Where the positions on the
    way have values, it is put into the whole at the route. -/
theorem Leads.outcome_put (document : Path) (hstrict : context.strict = false)
    (h : Leads context within s x r s') (hs : s.IsTidy) (hx : x.Ordered) (n : Nat) :
    ∃ n' f,
      (∀ y, s'.Takes y →
        s.outcome context document n (Data.put r y x) =
          f (s'.outcome context document n' y)) ∧
      (s.target?.isSome → (∀ s, within s → s.target?.isSome) → Value.Surrounds r f) := by
  induction h generalizing n with
  | here => exact ⟨n, id, fun _ _ => rfl, fun _ _ => Value.surrounds_nil⟩
  | @step s s' s'' x y t r h hwithin hy hrest ih =>
    -- the function of the first step, after that of the rest of the route
    obtain ⟨n₁, f, houtcome, hholds⟩ : Fills context document s n x t s' :=
      h.fills hstrict hs hx.isOrdered hy n
    obtain ⟨n₂, f', houtcome', hsurrounds⟩ := ih (h.isTidy hs) (hx.child? hy) n₁
    refine ⟨n₂, f ∘ f', ?_, ?_⟩
    · intro z hz
      rw [Data.put, hy, Option.getD_some, houtcome _ (hrest.takes hz), houtcome' z hz]
      rfl
    · intro hs hvalues
      exact (hsurrounds (hvalues _ hwithin) hvalues).cons (hholds hs (hvalues _ hwithin))

end Position

/-! ## Documents -/

namespace Document

/-- The data of a document. -/
def data (d : Document) : Data := .map d.entries

/-- The document with other data at a route. -/
def put (r : Route) (x : Data) (d : Document) : Document :=
  match Data.put r x d.data with
  | .map es => ⟨d.path, es⟩
  | _ => d

@[simp] theorem path_put (r : Route) (x : Data) (d : Document) : (d.put r x).path = d.path := by
  unfold put
  split <;> rfl

/-- What is put inside, or is a map itself, leaves a map. -/
theorem data_put {r : Route} {x : Data} {d : Document} (h : r = [] → ∃ es, x = .map es) :
    (d.put r x).data = Data.put r x d.data := by
  have hmap : ∃ es, Data.put r x d.data = .map es := by
    cases r with
    | nil => exact h rfl
    | cons t r => cases t <;> exact ⟨_, rfl⟩
  obtain ⟨es, hes⟩ := hmap
  rw [put, hes]
  rfl

/-- Putting back what is there changes nothing. -/
theorem put_at? {d : Document} (hd : d.data.Ordered) {r : Route} {x : Data}
    (hx : Data.at? r d.data = some x) : d.put r x = d := by
  rw [put, hd.put_at? hx]
  rfl

end Document

namespace Rig

open Position

variable {context : Context}

/-- The context of documents that need no files, with every factory. -/
def withoutFiles : Context := ⟨StoredFiles.empty.fileSystem, .standard, false⟩

/-- The position of a whole document. -/
def whole : Position := .value Value.emptyConfig

/-- The declarations of a configuration are tidy. -/
theorem whole_isTidy : whole.IsTidy := by
  rintro target ⟨rfl⟩
  exact ⟨.record config, config_tidy, Value.isConfig_empty⟩

/-- A document is bound by the shape of an empty configuration. -/
theorem bindDocument_toOption (d : Document) :
    (bindDocument context d).toOption =
      (whole.outcome context d.path (maxDepth + 1) d.data).toOption := by
  have hmap {ε ε' α : Type} (f : ε → ε') (x : Except ε α) :
      (x.mapError f).toOption = x.toOption := by
    cases x <;> rfl
  rw [← hmap Error.root]
  exact congrArg Except.toOption (Walker.run_outcome _ _)

/-- Documents and overwrites stand for what the documents do, merged and then overwritten. -/
theorem resolve_toOption (documents : List Document) (overwrites : List (String × String)) :
    (resolve context documents overwrites).toOption =
      (documents.mapM (bindDocument context)).toOption.bind fun configs =>
        (Value.mergeAll? configs).bind fun c =>
          Value.overwrittenAll? overwrites (some c) := by
  rw [resolve, toOption_bind]
  congr 1
  funext configs
  cases Value.mergeAll? configs with
  | none => rfl
  | some c =>
    rw [Option.bind_some, ← Value.overwriteAll_toOption, After.toOption]
    simp only
    cases (Value.overwriteAll overwrites c).fault <;> rfl

/-- Documents that are bound to the same can stand for each other among others. -/
theorem resolve_toOption_congr {d d' : Document}
    (h : (bindDocument context d').toOption = (bindDocument context d).toOption)
    (before after : List Document) (overwrites : List (String × String)) :
    (resolve context (before ++ d' :: after) overwrites).toOption =
      (resolve context (before ++ d :: after) overwrites).toOption := by
  rw [resolve_toOption, resolve_toOption, toOption_mapM_congr h]

/-- What a document is bound to is a function of what the data at a place in it comes to. -/
theorem bindDocument_put (hstrict : context.strict = false) {d : Document} (hd : d.data.Ordered)
    {within : Position → Prop} {r : Route} {s : Position}
    (h : Leads context within whole d.data r s) :
    ∃ n f,
      (∀ y, s.Takes y → (r = [] → ∃ es, y = .map es) →
        (bindDocument context (d.put r y)).toOption =
          (f (s.outcome context d.path n y)).toOption) ∧
      ((∀ s, within s → s.target?.isSome) → Value.Surrounds r f) := by
  obtain ⟨n, f, houtcome, hsurrounds⟩ :=
    h.outcome_put d.path hstrict whole_isTidy hd (maxDepth + 1)
  refine ⟨n, f, fun y hy hmap => ?_, hsurrounds rfl⟩
  rw [bindDocument_toOption, Document.data_put hmap, Document.path_put, houtcome y hy]

/-- A document is bound to the same when what it holds at a place comes to the same there. -/
theorem bindDocument_put_toOption (hstrict : context.strict = false) {d : Document}
    (hd : d.data.Ordered) {within : Position → Prop} {r : Route} {s : Position}
    (h : Leads context within whole d.data r s) {x y : Data} (hx : Data.at? r d.data = some x)
    (hsx : s.Takes x) (hsy : s.Takes y) (hy : r = [] → ∃ es, y = .map es)
    (hsame : ∀ n, s.outcome context d.path n y = s.outcome context d.path n x) :
    (bindDocument context (d.put r y)).toOption = (bindDocument context d).toOption := by
  obtain ⟨n, f, hput, -⟩ := bindDocument_put hstrict hd h
  have hmap : r = [] → ∃ es, x = .map es := by
    rintro rfl
    exact ⟨d.entries, (Option.some.inj hx).symm⟩
  rw [hput y hsy hy, hsame n, ← hput x hsx hmap, Document.put_at? hd hx]

end Rig

end Testbed

import Testbed.Error
import Testbed.Proofs.Keyed.Around
import Testbed.Proofs.Results
import Testbed.Proofs.Value.Frame

/-!
# Surroundings

When a value is bound part by part, what one part comes to goes into the whole at one place. The
function from what the part comes to, to what the whole comes to, is the part's surroundings:
`Surrounds r f` says that `f` puts its argument where the route `r` leads, and fails when that has
failed. Surroundings are put together from steps, one for each container on the way.
-/

namespace Testbed

namespace Value

variable {f g : Except Cause Value → Except Cause Value} {r : Route} {t : Step}

/-! ## §1 Steps and routes -/

/-- Whether `f` puts what one step leads to into what holds it. -/
structure Holds (t : Step) (f : Except Cause Value → Except Cause Value) : Prop where
  strict : ∀ cause v, f (.error cause) ≠ .ok v
  child : ∀ {w v}, f (.ok w) = .ok v → child? t v = some w
  set : ∀ {w v}, f (.ok w) = .ok v → ∀ w', f (.ok w') = .ok (setChild t w' v)

/-- Whether `f` puts what a route leads to into the whole. -/
structure Surrounds (r : Route) (f : Except Cause Value → Except Cause Value) : Prop where
  strict : ∀ cause v, f (.error cause) ≠ .ok v
  place : ∀ {w v}, f (.ok w) = .ok v → at? r v = some w
  put : ∀ {w v}, f (.ok w) = .ok v → ∀ w', f (.ok w') = .ok (put r w' v)

theorem surrounds_nil : Surrounds [] id where
  strict := by simp
  place h := by rw [Except.ok.inj h]; rfl
  put _ w' := rfl

/-- What fails whatever it is given holds anything. -/
theorem holds_error (t : Step) (cause : Cause) : Holds t fun _ => .error cause where
  strict := by simp
  child h := by simp at h
  set h := by simp at h

/-- A check beforehand changes nothing where it is passed. -/
theorem Holds.checked (hf : Holds t f) (check : Except Cause Unit) :
    Holds t fun x => check >>= fun _ => f x := by
  cases check with
  | error cause => exact holds_error t cause
  | ok _ => exact hf

/-- What surrounds something along a route surrounds it along a longer one, a step further out. -/
theorem Surrounds.cons (hg : Holds t g) (hf : Surrounds r f) : Surrounds (t :: r) (g ∘ f) := by
  have hinner {x : Except Cause Value} {v : Value} (h : g (f x) = .ok v) :
      ∃ u, f x = .ok u ∧ g (.ok u) = .ok v := by
    cases hx : f x with
    | error cause => exact absurd (hx ▸ h) (hg.strict cause v)
    | ok u => exact ⟨u, rfl, hx ▸ h⟩
  constructor
  · intro cause v h
    obtain ⟨u, hu, -⟩ := hinner h
    exact hf.strict cause u hu
  · intro w v h
    obtain ⟨u, hu, hv⟩ := hinner h
    rw [at?, hg.child hv]
    exact hf.place hu
  · intro w v h w'
    obtain ⟨u, hu, hv⟩ := hinner h
    show g (f (.ok w')) = _
    rw [hf.put hu w', hg.set hv, Value.put, hg.child hv]
    rfl

/-! ## §2 Containers -/

/-- What surrounds one of several things that are made one after the other. -/
def among {α : Type} (before after : Except Cause (List α)) (tag : Value → α)
    (whole : List α → Value) (x : Except Cause Value) : Except Cause Value := do
  let a ← before
  let w ← x
  let c ← after
  pure (whole (a ++ tag w :: c))

variable {α : Type} {before after : Except Cause (List α)} {tag : Value → α}
  {whole : List α → Value}

/-- Where one of several things is made from a value, the whole is what surrounds that value. -/
theorem map_mapM_append_cons {β : Type} (f : β → Except Cause α) (xs : List β) {x : β}
    (ys : List β) {y : Except Cause Value} (hx : f x = tag <$> y) :
    whole <$> (xs ++ x :: ys).mapM f = among (xs.mapM f) (ys.mapM f) tag whole y := by
  rw [mapM_append_cons, hx]
  cases xs.mapM f with
  | error cause => rfl
  | ok a =>
    cases y with
    | error cause => rfl
    | ok w => cases ys.mapM f <;> rfl

theorem among_error (cause : Cause) (v : Value) :
    among before after tag whole (.error cause) ≠ .ok v := by
  intro h
  cases before with
  | error e => cases h
  | ok a => cases h

/-- Where the whole is made all of its parts are. -/
theorem among_ok {w v : Value} (h : among before after tag whole (.ok w) = .ok v) :
    ∃ a c, before = .ok a ∧ after = .ok c ∧ v = whole (a ++ tag w :: c) := by
  cases before with
  | error e => cases h
  | ok a =>
    cases after with
    | error e => cases h
    | ok c => exact ⟨a, c, rfl, rfl, (Except.ok.inj h).symm⟩

theorem among_ok_ok (a c : List α) (w : Value) :
    among (.ok a) (.ok c) tag whole (.ok w) = .ok (whole (a ++ tag w :: c)) :=
  rfl

/-- An item among the items of a list. -/
theorem holds_item {e : Shape} {before after : Except Cause (List Value)} {i : Nat}
    (h : ∀ a, before = .ok a → a.length = i) :
    Holds (.index i) (among before after id (list e)) := by
  refine ⟨among_error, ?_, ?_⟩
  · intro w v hv
    obtain ⟨a, c, ha, hc, rfl⟩ := among_ok hv
    obtain rfl := h a ha
    simp [child?]
  · intro w v hv w'
    obtain ⟨a, c, ha, hc, rfl⟩ := among_ok hv
    obtain rfl := h a ha
    rw [ha, hc, among_ok_ok]
    simp [setChild]

/-- An entry among the entries of a map, where no earlier one has its key. -/
theorem holds_entry {e : Shape} {before after : Except Cause (List (String × Value))}
    {key : String} (h : ∀ a, before = .ok a → key ∉ Keyed.keys a) :
    Holds (.key key) (among before after (key, ·) (map e)) := by
  refine ⟨among_error, ?_, ?_⟩
  · intro w v hv
    obtain ⟨a, c, ha, hc, rfl⟩ := among_ok hv
    exact Keyed.get?_append_cons (h a ha) w c
  · intro w v hv w'
    obtain ⟨a, c, ha, hc, rfl⟩ := among_ok hv
    rw [ha, hc, among_ok_ok, setChild, Keyed.put_append_cons (h a ha)]

/-- A slot among the slots of a record, where no earlier one has its name. -/
theorem holds_slot {variant : Option Variant} {after : Except Cause Slots} {before : Slots}
    {bind : Field × Value → Except Cause Value} {field : Field} {name : String}
    (hname : field.documentName? = some name)
    (h : ∀ s ∈ before, ∃ n, s.1.documentName? = some n ∧ n ≠ name) :
    Holds (.key name)
      (among (before.mapM fun s => (s.1, ·) <$> bind s) after (field, ·) (record variant)) := by
  -- what is made of the slots before has their names
  have hbefore {a : Slots} (ha : (before.mapM fun s => (s.1, ·) <$> bind s) = .ok a) :
      ∀ s ∈ a, ∃ n, s.1.documentName? = some n ∧ n ≠ name := by
    intro s hs
    have hmem : s.1 ∈ before.map (·.1) := names_of_mapM ha ▸ List.mem_map_of_mem hs
    obtain ⟨e, he, heq⟩ := List.mem_map.mp hmem
    exact heq ▸ h e he
  refine ⟨among_error, ?_, ?_⟩
  · intro w v hv
    obtain ⟨a, c, ha, hc, rfl⟩ := among_ok hv
    exact slotNamed?_append_cons hname (hbefore ha) w c
  · intro w v hv w'
    obtain ⟨a, c, ha, hc, rfl⟩ := among_ok hv
    rw [ha, hc, among_ok_ok, setChild, putSlot_append_cons hname (hbefore ha)]

end Value

end Testbed

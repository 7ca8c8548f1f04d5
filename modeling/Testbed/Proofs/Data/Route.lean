import Testbed.Data
import Testbed.Proofs.Keyed.Order

/-!
# Routes through data

A route leads into data step by step: to the value under a key of a map, or to the item at an
index of a list. `at?` is what a route leads to, and `put` is the data with something else there,
everything around it being as it was.
-/

namespace Testbed

/-- A step into data. -/
inductive Step where
  | key (name : String)
  | index (position : Nat)
deriving DecidableEq, Repr

/-- A way into data, the outermost step first. -/
abbrev Route := List Step

/-- A name that can be written in a route: it is not empty, and holds nothing that ends a name. -/
def Step.IsName (name : String) : Prop :=
  name ≠ "" ∧ ∀ c ∈ name.toList, c ≠ '.' ∧ c ≠ '[' ∧ c ≠ ']'

-- Over the characters of the name: characters being finitely many, the search for an instance can
-- find the one that goes over all of them.
instance : DecidablePred Step.IsName :=
  fun _ => @instDecidableAnd _ _ _ (List.decidableBAll _ _)

namespace Data

/-- What one step leads to. -/
def child? : Step → Data → Option Data
  | .key name, .map entries => Keyed.get? name entries
  | .index i, .list items => items[i]?
  | _, _ => none

/-- What a route leads to. -/
def at? : Route → Data → Option Data
  | [], d => some d
  | s :: r, d => (child? s d).bind (at? r)

/-- The data with `x` where one step leads. A key that is not there is added to the map. -/
def setChild (s : Step) (x : Data) : Data → Data
  | map entries =>
    match s with
    | .key name => map (Keyed.insert name x entries)
    | .index _ => map entries
  | list items =>
    match s with
    | .key _ => list items
    | .index i => list (items.set i x)
  | d => d

/-- The data with `x` where a route leads. -/
def put : Route → Data → Data → Data
  | [], x, _ => x
  | s :: r, x, d => setChild s (put r x ((child? s d).getD null)) d

theorem child?_setChild_of_ne {s t : Step} (h : s ≠ t) (x d : Data) :
    child? s (setChild t x d) = child? s d := by
  cases d with
  | map entries =>
    cases t with
    | index i => rfl
    | key name =>
      cases s with
      | index j => rfl
      | key other => exact Keyed.get?_insert_of_ne (by simpa using h) x entries
  | list items =>
    cases t with
    | key name => rfl
    | index i =>
      cases s with
      | key other => rfl
      | index j =>
        have hij : i ≠ j := by
          intro hij
          exact h (by rw [hij])
        simp [child?, setChild, hij]
  | _ => rfl

/-- What was set is there, unless a step leads nowhere. -/
theorem child?_setChild_self (s : Step) (x d : Data) :
    child? s (setChild s x d) = some x ∨
      child? s d = none ∧ child? s (setChild s x d) = none := by
  cases d with
  | map entries =>
    cases s with
    | index i => exact .inr ⟨rfl, rfl⟩
    | key name => exact .inl (Keyed.get?_insert_self name x entries)
  | list items =>
    cases s with
    | key name => exact .inr ⟨rfl, rfl⟩
    | index i =>
      -- a list does not grow
      by_cases hi : i < items.length
      · exact .inl (by simp [child?, setChild, hi])
      · exact .inr (by simp [child?, setChild, hi])
  | _ => cases s <;> exact .inr ⟨rfl, rfl⟩

/-- Inside a scalar there is nothing to put anything. -/
theorem at?_put_null {q r : Route} (hqr : ¬ q <+: r) (hrq : ¬ r <+: q) (x : Data) :
    at? q (put r x null) = none := by
  cases r with
  | nil => exact absurd List.nil_prefix hrq
  | cons t r =>
    cases q with
    | nil => exact absurd List.nil_prefix hqr
    | cons s q => cases s <;> cases t <;> rfl

/-- Putting something at one route changes nothing at a route that leads elsewhere. -/
theorem at?_put_of_apart {q r : Route} (hqr : ¬ q <+: r) (hrq : ¬ r <+: q) (x d : Data) :
    at? q (put r x d) = at? q d := by
  induction r generalizing q d with
  | nil => exact absurd List.nil_prefix hrq
  | cons t r ih =>
    cases q with
    | nil => exact absurd List.nil_prefix hqr
    | cons s q =>
      by_cases hst : s = t
      · -- the routes part further inside
        subst hst
        rw [List.prefix_cons_inj] at hqr hrq
        have hinside : at? q (put r x ((child? s d).getD null)) = (child? s d).bind (at? q) := by
          cases child? s d with
          | some y => exact ih hqr hrq y
          | none => exact at?_put_null hqr hrq x
        rcases child?_setChild_self s (put r x ((child? s d).getD null)) d with hsome | ⟨hd, hnone⟩
        · simp only [at?, put, hsome, Option.bind_some, hinside]
        · rw [put, at?, at?, hnone, hd]
      · simp only [at?, put, child?_setChild_of_ne hst]

/-- A route in two parts leads from where the first part ends. -/
theorem at?_append (q r : Route) (x : Data) : at? (q ++ r) x = (at? q x).bind (at? r) := by
  induction q generalizing x with
  | nil => rfl
  | cons t q ih =>
    rw [List.cons_append, at?, at?]
    cases child? t x with
    | none => rfl
    | some y => exact ih y

theorem put_append {q : Route} {x y : Data} (h : at? q x = some y) (r : Route) (z : Data) :
    put (q ++ r) z x = put q (put r z y) x := by
  induction q generalizing x with
  | nil =>
    obtain rfl := Option.some.inj h
    rfl
  | cons t q ih =>
    obtain ⟨w, hw, hat⟩ := Option.bind_eq_some_iff.mp h
    rw [List.cons_append, put, put, hw, Option.getD_some, ih hat]

end Data

end Testbed

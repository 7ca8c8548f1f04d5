import Mathlib.Data.List.Forall2

/-!
# Results and errors

What a computation that may fail says about its parts when it comes to a result: `bind` and `map`
have had a result to go on with, and `mapM` has had one for each element, in order.
-/

namespace Testbed

variable {ε κ α β : Type}

/-! ## §1 One after another -/

@[simp] theorem ok_bind (a : α) (f : α → Except ε β) : (Except.ok a >>= f) = f a :=
  rfl

/-- A computation with a result has had one in its first part. -/
theorem exists_ok_of_bind {x : Except ε α} {f : α → Except ε β} {b : β} (h : x >>= f = .ok b) :
    ∃ a, x = .ok a ∧ f a = .ok b := by
  cases x with
  | error e => cases h
  | ok a => exact ⟨a, rfl, h⟩

theorem exists_ok_of_map {x : Except ε α} {f : α → β} {b : β} (h : f <$> x = .ok b) :
    ∃ a, x = .ok a ∧ f a = b := by
  cases x with
  | error e => cases h
  | ok a => exact ⟨a, rfl, Except.ok.inj h⟩

theorem ok_of_toOption_eq_some {x : Except ε α} {a : α} (h : x.toOption = some a) : x = .ok a := by
  cases x with
  | error e => simp [Except.toOption] at h
  | ok b => rw [Option.some.inj h]

theorem ok_of_mapError_eq_ok {ε' : Type} {f : ε → ε'} {x : Except ε α} {a : α}
    (h : x.mapError f = .ok a) : x = .ok a := by
  cases x with
  | error e => cases h
  | ok b => rw [Except.ok.inj h]

theorem exists_error_of_mapError {ε' : Type} {f : ε → ε'} {x : Except ε α} {e' : ε'}
    (h : x.mapError f = .error e') : ∃ e, x = .error e ∧ f e = e' := by
  cases x with
  | error e => exact ⟨e, rfl, Except.error.inj h⟩
  | ok a => cases h

/-- The error of a computation that comes to no result. -/
def error? : Except ε α → Option ε
  | .ok _ => none
  | .error e => some e

theorem error_of_error?_eq_some {x : Except ε α} {e : ε} (h : error? x = some e) :
    x = .error e := by
  cases x with
  | ok a => cases h
  | error e' => rw [Option.some.inj h]

/-- Which results there are does not depend on the errors. -/
theorem toOption_bind (x : Except ε α) (f : α → Except ε β) :
    (x >>= f).toOption = x.toOption.bind fun a => (f a).toOption := by
  cases x <;> rfl

/-! ## §2 One for each element -/

theorem exists_ok_of_mapM_cons {f : α → Except ε β} {x : α} {xs : List α} {ys : List β}
    (h : (x :: xs).mapM f = .ok ys) :
    ∃ y zs, f x = .ok y ∧ xs.mapM f = .ok zs ∧ ys = y :: zs := by
  rw [List.mapM_cons] at h
  obtain ⟨y, hy, hrest⟩ := exists_ok_of_bind h
  obtain ⟨zs, hzs, hpure⟩ := exists_ok_of_bind hrest
  exact ⟨y, zs, hy, hzs, (Except.ok.inj hpure).symm⟩

/-- Where a list has results, each of its elements has one. -/
theorem exists_ok_of_mapM {f : α → Except ε β} {xs : List α} {ys : List β}
    (h : xs.mapM f = .ok ys) : ∀ x ∈ xs, ∃ y, f x = .ok y := by
  induction xs generalizing ys with
  | nil => simp
  | cons x rest ih =>
    obtain ⟨y, zs, hy, hzs, -⟩ := exists_ok_of_mapM_cons h
    exact List.forall_mem_cons.mpr ⟨⟨y, hy⟩, ih hzs⟩

/-- Where there is a result for each element, there is one for the list. -/
theorem exists_mapM_eq_ok {f : α → Except ε β} {xs : List α} (h : ∀ x ∈ xs, ∃ y, f x = .ok y) :
    ∃ ys, xs.mapM f = .ok ys := by
  induction xs with
  | nil => exact ⟨[], rfl⟩
  | cons x rest ih =>
    obtain ⟨⟨y, hy⟩, hrest⟩ := List.forall_mem_cons.mp h
    obtain ⟨ys, hys⟩ := ih hrest
    refine ⟨y :: ys, ?_⟩
    rw [List.mapM_cons, hy, hys]
    rfl

/-- A list of results is that of the elements, one by one. -/
theorem mapM_eq_ok_iff {f : α → Except ε β} {xs : List α} {ys : List β} :
    xs.mapM f = .ok ys ↔ List.Forall₂ (fun x y => f x = .ok y) xs ys := by
  constructor
  · intro h
    induction xs generalizing ys with
    | nil => cases h; exact .nil
    | cons x rest ih =>
      obtain ⟨y, zs, hy, hzs, rfl⟩ := exists_ok_of_mapM_cons h
      exact .cons hy (ih hzs)
  · intro h
    induction h with
    | nil => rfl
    | cons hy _ ih =>
      rw [List.mapM_cons, hy, ih]
      rfl

/-- What is made of the element at an index stands at that index. -/
theorem exists_getElem?_of_mapM {f : α → Except ε β} {xs : List α} {ys : List β}
    (h : xs.mapM f = .ok ys) {i : Nat} {x : α} (hx : xs[i]? = some x) :
    ∃ y, ys[i]? = some y ∧ f x = .ok y := by
  obtain ⟨hi, rfl⟩ := List.getElem?_eq_some_iff.mp hx
  have hmade := mapM_eq_ok_iff.mp h
  have hi' : i < ys.length := hmade.length_eq ▸ hi
  exact ⟨ys[i], List.getElem?_eq_getElem hi', hmade.get hi hi'⟩

theorem exists_mem_of_mapM {f : α → Except ε β} {xs : List α} {ys : List β}
    (h : xs.mapM f = .ok ys) : ∀ y ∈ ys, ∃ x ∈ xs, f x = .ok y := by
  induction xs generalizing ys with
  | nil => cases h; simp
  | cons x rest ih =>
    obtain ⟨y, zs, hy, hzs, rfl⟩ := exists_ok_of_mapM_cons h
    intro z hz
    rcases List.mem_cons.mp hz with rfl | hz
    · exact ⟨x, List.mem_cons_self, hy⟩
    · obtain ⟨x', hx', heq⟩ := ih hzs z hz
      exact ⟨x', List.mem_cons_of_mem _ hx', heq⟩

/-- The first element without a result says what is wrong. -/
theorem mapM_eq_error_iff {f : α → Except ε β} {xs : List α} {e : ε} :
    xs.mapM f = .error e ↔ ∃ before x after, xs = before ++ x :: after ∧
      (∀ y ∈ before, ∃ z, f y = .ok z) ∧ f x = .error e := by
  constructor
  · intro h
    induction xs with
    | nil => cases h
    | cons x rest ih =>
      rw [List.mapM_cons] at h
      cases hx : f x with
      | error e' =>
        rw [hx] at h
        obtain rfl := Except.error.inj h
        exact ⟨[], x, rest, rfl, by simp, hx⟩
      | ok y =>
        cases hrest : rest.mapM f with
        | ok ys =>
          rw [hx, hrest] at h
          cases h
        | error e' =>
          rw [hx, hrest] at h
          obtain rfl := Except.error.inj h
          obtain ⟨before, x', after, rfl, hbefore, hx'⟩ := ih hrest
          exact ⟨x :: before, x', after, rfl, List.forall_mem_cons.mpr ⟨⟨y, hx⟩, hbefore⟩, hx'⟩
  · rintro ⟨before, x, after, rfl, hbefore, hx⟩
    obtain ⟨ys, hys⟩ := exists_mapM_eq_ok hbefore
    rw [List.mapM_append, hys, List.mapM_cons, hx]
    rfl

theorem exists_mem_of_mapM_error {f : α → Except ε β} {xs : List α} {e : ε}
    (h : xs.mapM f = .error e) : ∃ x ∈ xs, f x = .error e := by
  obtain ⟨before, x, after, rfl, -, hx⟩ := mapM_eq_error_iff.mp h
  exact ⟨x, by simp, hx⟩

/-- Where each element is made as by `g`, if not for one error, so is the list. -/
theorem mapM_eq_error_or {f g : α → Except ε β} {e : ε} {xs : List α}
    (h : ∀ x ∈ xs, f x = .error e ∨ f x = g x) :
    xs.mapM f = .error e ∨ xs.mapM f = xs.mapM g := by
  induction xs with
  | nil => exact .inr rfl
  | cons x rest ih =>
    obtain ⟨hx, hrest⟩ := List.forall_mem_cons.mp h
    rw [List.mapM_cons, List.mapM_cons]
    rcases hx with hx | hx
    · exact .inl (by rw [hx]; rfl)
    · rw [hx]
      cases g x with
      | error e' => exact .inr rfl
      | ok y =>
        rcases ih hrest with hrest | hrest
        · exact .inl (by rw [hrest]; rfl)
        · exact .inr (by rw [hrest])

theorem length_of_mapM {f : α → Except ε β} {xs : List α} {ys : List β} (h : xs.mapM f = .ok ys) :
    ys.length = xs.length :=
  (mapM_eq_ok_iff.mp h).length_eq.symm

/-- What is made under names keeps them. -/
theorem names_of_mapM {f : κ × α → Except ε β} {xs : List (κ × α)} {ys : List (κ × β)}
    (h : (xs.mapM fun e => (e.1, ·) <$> f e) = .ok ys) : ys.map (·.1) = xs.map (·.1) := by
  induction xs generalizing ys with
  | nil => cases h; rfl
  | cons x rest ih =>
    obtain ⟨y, zs, hy, hzs, rfl⟩ := exists_ok_of_mapM_cons h
    obtain ⟨z, -, rfl⟩ := exists_ok_of_map hy
    simp [ih hzs]

theorem mapM_eq_of_forall {f g : α → Except ε β} {xs : List α} (h : ∀ x ∈ xs, f x = g x) :
    xs.mapM f = xs.mapM g := by
  induction xs with
  | nil => rfl
  | cons x rest ih =>
    obtain ⟨hx, hrest⟩ := List.forall_mem_cons.mp h
    rw [List.mapM_cons, List.mapM_cons, hx, ih hrest]

/-- Where each element is made from what it is shown as, the list is made from what it is shown
    as. -/
theorem mapM_map_eq_ok {f : α → Except ε β} {shown : β → α} {ys : List β}
    (h : ∀ y ∈ ys, f (shown y) = .ok y) : (ys.map shown).mapM f = .ok ys := by
  induction ys with
  | nil => rfl
  | cons y rest ih =>
    obtain ⟨hy, hrest⟩ := List.forall_mem_cons.mp h
    rw [List.map_cons, List.mapM_cons, hy, ih hrest]
    rfl

/-- A list of which one element is made separately. -/
theorem mapM_append_cons (f : α → Except ε β) (before : List α) (x : α) (after : List α) :
    (before ++ x :: after).mapM f = (do
      let a ← before.mapM f
      let b ← f x
      let c ← after.mapM f
      pure (a ++ b :: c)) := by
  rw [List.mapM_append, List.mapM_cons]
  simp

/-- What is made of a list depends on what is made of each element, if it is made. -/
theorem toOption_mapM_congr {f : α → Except ε β} {x y : α}
    (h : (f y).toOption = (f x).toOption) (before after : List α) :
    ((before ++ y :: after).mapM f).toOption = ((before ++ x :: after).mapM f).toOption := by
  simp only [mapM_append_cons, toOption_bind, h]

end Testbed

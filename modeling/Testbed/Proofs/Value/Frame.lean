import Testbed.Proofs.Value.Place

/-!
# What a change leaves alone

`Outline` is what a value is when the values inside it are left out: the kind of a scalar, the
length of a list, the keys of a map, the variant and the fields of a record. Something put at a
route is found there, every value that is not on the way there stays as it was, and the values on
the way keep their outlines.
-/

namespace Testbed.Value

/-- What a value is when the values inside it are left out. -/
inductive Outline where
  | bool
  | int (width : IntWidth)
  | float (width : FloatWidth)
  | text
  | list (length : Nat)
  | map (keys : List String)
  | record (variant : Option Variant) (fields : List Field)
  | absent
deriving DecidableEq, Repr

/-- The outline of a value. -/
def outline : Value → Outline
  | bool _ => .bool
  | int w _ => .int w
  | float w _ => .float w
  | text _ => .text
  | list _ items => .list items.length
  | map _ entries => .map (Keyed.keys entries)
  | record variant slots => .record variant (slots.map (·.1))
  | absent => .absent

variable {v w x y : Value} {q r : Route}

/-! ## §1 At the route -/

theorem at?_put_self (h : at? r v = some x) (w : Value) : at? r (put r w v) = some w := by
  induction r generalizing v with
  | nil => rfl
  | cons t r ih =>
    obtain ⟨y, hy, hat⟩ := Option.bind_eq_some_iff.mp h
    rw [put, at?, child?_setChild_self (.inl (by simp [hy])), Option.bind_some, hy,
      Option.getD_some]
    exact ih hat

/-- What is put at a leaf is there, also where the leaf was the start of a new entry. -/
theorem at?_put_of_leaf? (h : leaf? r v = some x) (w : Value) : at? r (put r w v) = some w := by
  induction r generalizing v with
  | nil => rfl
  | cons t r ih =>
    rw [at?, child?_put_cons h, Option.bind_some]
    rcases leaf?_cons_eq_some h with ⟨y, hy, hleaf⟩ | ⟨-, rfl, -, -⟩
    · rw [hy, Option.getD_some]
      exact ih hleaf
    · rfl

theorem put_append (h : at? q v = some y) (r : Route) (w : Value) :
    put (q ++ r) w v = put q (put r w y) v := by
  induction q generalizing v with
  | nil =>
    obtain rfl := Option.some.inj h
    rfl
  | cons t q ih =>
    obtain ⟨z, hz, hat⟩ := Option.bind_eq_some_iff.mp h
    rw [List.cons_append, put, put, hz, Option.getD_some, ih hat]

/-! ## §2 Elsewhere -/

/-- There is nothing inside of a leaf. -/
theorem at?_cons_of_isSettable (h : v.isSettable) (t : Step) (q : Route) :
    at? (t :: q) v = none := by
  rw [at?, child?_of_isSettable h]
  rfl

/-- What is put at a leaf is seen on the way there, and nowhere else. -/
theorem at?_put_of_not_prefix (h : leaf? r v = some x) (hw : w.isSettable) (hq : ¬ q <+: r) :
    at? q (put r w v) = at? q v := by
  induction r generalizing q v with
  | nil =>
    -- behind a scalar there is nothing, before and after
    obtain ⟨s, q, rfl⟩ := List.exists_cons_of_ne_nil (fun hnil => hq (hnil ▸ List.nil_prefix))
    rw [put, at?_cons_of_isSettable hw, at?_cons_of_isSettable (isSettable_of_leaf?_nil h)]
  | cons t r ih =>
    cases q with
    | nil => exact absurd List.nil_prefix hq
    | cons s q =>
      by_cases hst : s = t
      · subst hst
        rw [List.prefix_cons_inj] at hq
        rw [at?, child?_put_cons h, Option.bind_some, at?]
        rcases leaf?_cons_eq_some h with ⟨y, hy, hleaf⟩ | ⟨hnone, rfl, -, -⟩
        · rw [hy, Option.getD_some, Option.bind_some]
          exact ih hleaf hq
        · -- a new entry holds a scalar, so nothing is further inside
          obtain ⟨s', q, rfl⟩ := List.exists_cons_of_ne_nil (fun hnil => hq (hnil ▸ List.nil_prefix))
          rw [hnone, put, at?_cons_of_isSettable hw]
          rfl
      · rw [at?, at?, put, child?_setChild_of_ne hst]

/-! ## §3 On the way -/

/-- A step that leads somewhere does not change the outline when something else is set there. -/
theorem outline_setChild {t : Step} (h : child? t v = some x) (w : Value) :
    (setChild t w v).outline = v.outline := by
  cases v <;> cases t <;> try simp [child?] at h
  case record.key variant slots name =>
    simp [setChild, outline, putSlot_fields]
  case map.key e entries name =>
    -- the key is there, so no entry is added
    have hhas : Keyed.has name entries = true := by simp [Keyed.has, h]
    simp [setChild, outline, Keyed.put, hhas, Keyed.keys_replace]
  case list.index e items i =>
    simp [setChild, outline]

/-- What is put where something stood leaves the outlines on the way there. -/
theorem outline_at?_put (h : at? r v = some x) (hq : q <+: r) (hne : q ≠ r) (w : Value) :
    (at? q (put r w v)).map outline = (at? q v).map outline := by
  induction r generalizing q v with
  | nil => exact absurd (List.prefix_nil.mp hq) hne
  | cons t r ih =>
    obtain ⟨y, hy, hat⟩ := Option.bind_eq_some_iff.mp h
    cases q with
    | nil => simp [at?, put, outline_setChild hy]
    | cons s q =>
      obtain ⟨rfl, hqr⟩ := List.cons_prefix_cons.mp hq
      rw [at?, put, child?_setChild_self (.inl (by simp [hy])), Option.bind_some, hy,
        Option.getD_some, at?, hy, Option.bind_some]
      apply ih hat hqr
      intro heq
      exact hne (by rw [heq])

end Testbed.Value

import Testbed.Proofs.Data.Route
import Testbed.Value.Overwrite

/-!
# Places in a value

A route leads into a value as it leads into data, records being entered by the names that their
fields have in documents. `at?` is what stands at a route and `put` the value with something else
there. `leaf?` is the scalar that an overwrite at the route would set: the one that stands there,
or the zero value that a map has ready for a key it does not hold.

Settable leaves at different routes are apart from one another: a route to one does not pass
through the other. So putting at one route and looking, or putting, at another do not disturb each
other (`leaf?_put_of_ne`, `put_comm`), and putting twice at one route is putting the later value
(`put_put_self`).
-/

namespace Testbed

/-- The name of a field in documents, if its tag can be read. -/
def Field.documentName? (f : Field) : Option String :=
  match Directives.read f.tag with
  | .ok d => some (d.name?.getD f.ident)
  | .error _ => none

namespace Value

/-! ## §1 Slots by name -/

/-- The value in the first slot with a name in documents. A tag that cannot be read hides the
    slots behind it. -/
def slotNamed? (name : String) : Slots → Option Value
  | [] => none
  | (field, v) :: rest =>
    match field.documentName? with
    | none => none
    | some n => if n = name then some v else slotNamed? name rest

/-- The slots with another value in the first one with a name in documents. -/
def putSlot (name : String) (w : Value) : Slots → Slots
  | [] => []
  | (field, v) :: rest =>
    match field.documentName? with
    | none => (field, v) :: rest
    | some n => if n = name then (field, w) :: rest else (field, v) :: putSlot name w rest

/-- Putting a value into one slot leaves the others. -/
theorem slotNamed?_putSlot (name other : String) (w : Value) (slots : Slots) :
    slotNamed? other (putSlot name w slots) =
      if other = name then (slotNamed? name slots).map fun _ => w else slotNamed? other slots := by
  induction slots with
  | nil => simp [slotNamed?, putSlot]
  | cons e rest ih => grind [slotNamed?, putSlot]

theorem putSlot_putSlot_self (name : String) (w x : Value) (slots : Slots) :
    putSlot name w (putSlot name x slots) = putSlot name w slots := by
  induction slots with
  | nil => rfl
  | cons e rest ih => grind [putSlot]

/-- Two slots are filled in any order. -/
theorem putSlot_comm {name other : String} (h : name ≠ other) (w x : Value) (slots : Slots) :
    putSlot name w (putSlot other x slots) = putSlot other x (putSlot name w slots) := by
  induction slots with
  | nil => rfl
  | cons e rest ih => grind [putSlot]

theorem putSlot_slotNamed? {name : String} {w : Value} {slots : Slots}
    (h : slotNamed? name slots = some w) : putSlot name w slots = slots := by
  induction slots with
  | nil => rfl
  | cons e rest ih => grind [slotNamed?, putSlot]

theorem putSlot_fields (name : String) (w : Value) (slots : Slots) :
    (putSlot name w slots).map (·.1) = slots.map (·.1) := by
  induction slots with
  | nil => rfl
  | cons e rest ih => grind [putSlot]

theorem slotNamed?_append_cons {name : String} {field : Field}
    (hname : field.documentName? = some name) {before : Slots}
    (h : ∀ s ∈ before, ∃ n, s.1.documentName? = some n ∧ n ≠ name) (w : Value) (after : Slots) :
    slotNamed? name (before ++ (field, w) :: after) = some w := by
  induction before with
  | nil => simp [slotNamed?, hname]
  | cons e rest ih =>
    obtain ⟨⟨n, hn, hne⟩, hrest⟩ := List.forall_mem_cons.mp h
    simp [slotNamed?, hn, hne, ih hrest]

theorem putSlot_append_cons {name : String} {field : Field}
    (hname : field.documentName? = some name) {before : Slots}
    (h : ∀ s ∈ before, ∃ n, s.1.documentName? = some n ∧ n ≠ name) (w w' : Value)
    (after : Slots) :
    putSlot name w' (before ++ (field, w) :: after) = before ++ (field, w') :: after := by
  induction before with
  | nil => simp [putSlot, hname]
  | cons e rest ih =>
    obtain ⟨⟨n, hn, hne⟩, hrest⟩ := List.forall_mem_cons.mp h
    simp [putSlot, hn, hne, ih hrest]

theorem slotNamed?_resetSlots (name : String) (slots : Slots) :
    slotNamed? name (resetSlots slots) = (slotNamed? name slots).map reset := by
  induction slots with
  | nil => rfl
  | cons e rest ih => grind [slotNamed?, resetSlots]

/-! ## §2 One step -/

/-- What one step leads to. -/
def child? : Step → Value → Option Value
  | .key name, record _ slots => slotNamed? name slots
  | .key name, map _ entries => Keyed.get? name entries
  | .index i, list _ items => items[i]?
  | _, _ => none

/-- What a map starts a new entry with. -/
def fresh? : Step → Value → Option Value
  | .key _, map e _ => some e.zero
  | _, _ => none

/-- The value with `w` where one step leads. A key that is not there is added to a map. -/
def setChild (s : Step) (w : Value) : Value → Value
  | record variant slots =>
    match s with
    | .key name => record variant (putSlot name w slots)
    | .index _ => record variant slots
  | map e entries =>
    match s with
    | .key name => map e (Keyed.put name w entries)
    | .index _ => map e entries
  | list e items =>
    match s with
    | .key _ => list e items
    | .index i => list e (items.set i w)
  | v => v

-- In each law below a step meets the container that it fits; every other step does nothing.

theorem child?_setChild_of_ne {s t : Step} (h : s ≠ t) (w v : Value) :
    child? s (setChild t w v) = child? s v := by
  cases v <;> cases t <;> cases s <;> try rfl
  case record.key.key variant slots name other =>
    have hne : other ≠ name := by simpa using h
    simp [child?, setChild, slotNamed?_putSlot, hne]
  case map.key.key e entries name other =>
    have hne : other ≠ name := by simpa using h
    simp [child?, setChild, Keyed.get?_put, hne]
  case list.index.index e items i j =>
    have hne : i ≠ j := by simpa using h.symm
    simp [child?, setChild, hne]

@[simp] theorem fresh?_setChild (s t : Step) (w v : Value) :
    fresh? s (setChild t w v) = fresh? s v := by
  cases v <;> cases t <;> cases s <;> rfl

/-- What was set is there, where a step leads somewhere or can make an entry. -/
theorem child?_setChild_self {s : Step} {v : Value}
    (h : (child? s v).isSome ∨ (fresh? s v).isSome) (w : Value) :
    child? s (setChild s w v) = some w := by
  cases v <;> cases s <;> try simp [child?, fresh?] at h
  case record.key variant slots name =>
    obtain ⟨x, hx⟩ := Option.isSome_iff_exists.mp h
    simp [child?, setChild, slotNamed?_putSlot, hx]
  case map.key e entries name =>
    simp [child?, setChild, Keyed.get?_put]
  case list.index e items i =>
    simp [child?, setChild, h]

theorem setChild_setChild_self (s : Step) (w x v : Value) :
    setChild s w (setChild s x v) = setChild s w v := by
  cases v <;> cases s <;> try rfl
  case record.key variant slots name => simp [setChild, putSlot_putSlot_self]
  case map.key e entries name => simp [setChild, Keyed.put_put_self]
  case list.index e items i => simp [setChild]

/-- Two children are set in any order. -/
theorem setChild_comm {s t : Step} (h : s ≠ t) (w x v : Value) :
    setChild s w (setChild t x v) = setChild t x (setChild s w v) := by
  cases v <;> cases t <;> cases s <;> try rfl
  case record.key.key variant slots name other =>
    have hne : other ≠ name := by simpa using h
    simp [setChild, putSlot_comm hne]
  case map.key.key e entries name other =>
    have hne : other ≠ name := by simpa using h
    simp [setChild, Keyed.put_comm hne]
  case list.index.index e items i j =>
    have hne : i ≠ j := by simpa using h.symm
    simp [setChild, List.set_comm _ _ hne]

theorem setChild_child? {s : Step} {w v : Value} (h : child? s v = some w) :
    setChild s w v = v := by
  cases v <;> cases s <;> try rfl
  case record.key variant slots name => simp [setChild, putSlot_slotNamed? h]
  case map.key e entries name => simp [setChild, Keyed.put_get? h]
  case list.index e items i =>
    obtain ⟨hi, rfl⟩ := List.getElem?_eq_some_iff.mp h
    simp [setChild]

/-! ## §3 Routes -/

/-- What a route leads to. -/
def at? : Route → Value → Option Value
  | [], v => some v
  | s :: r, v => (child? s v).bind (at? r)

/-- The value with `w` where a route leads. -/
def put : Route → Value → Value → Value
  | [], w, _ => w
  | s :: r, w, v => setChild s (put r w ((child? s v).getD absent)) v

/-- Whether a text can be stored in place of the value. -/
def isSettable : Value → Bool
  | int _ _ => true
  | float _ _ => true
  | text _ => true
  | _ => false

/-- The scalar that an overwrite at a route sets. Only the last step may ask a map for a new
    entry. -/
def leaf? : Route → Value → Option Value
  | [], v => if v.isSettable then some v else none
  | s :: r, v =>
    match child? s v with
    | some x => leaf? r x
    | none => if r = [] then (fresh? s v).filter isSettable else none

/-- Nothing is inside a scalar. -/
theorem child?_of_isSettable {v : Value} (h : v.isSettable) (s : Step) : child? s v = none := by
  cases v <;> cases s <;> first | rfl | simp [isSettable] at h

theorem fresh?_of_isSettable {v : Value} (h : v.isSettable) (s : Step) : fresh? s v = none := by
  cases v <;> cases s <;> first | rfl | simp [isSettable] at h

theorem leaf?_cons_of_isSettable {v : Value} (h : v.isSettable) (s : Step) (r : Route) :
    leaf? (s :: r) v = none := by
  simp [leaf?, child?_of_isSettable h, fresh?_of_isSettable h]

/-- The first step to a leaf leads to what holds it, or makes the entry that is the leaf. -/
theorem leaf?_cons_eq_some {s : Step} {r : Route} {v x : Value} (h : leaf? (s :: r) v = some x) :
    (∃ y, child? s v = some y ∧ leaf? r y = some x) ∨
      (child? s v = none ∧ r = [] ∧ fresh? s v = some x ∧ x.isSettable) := by
  unfold leaf? at h
  split at h
  · next y hy => exact .inl ⟨y, hy, h⟩
  · next hnone =>
    split at h
    · next hr =>
      obtain ⟨hfresh, hset⟩ := Option.filter_eq_some_iff.mp h
      exact .inr ⟨hnone, hr, hfresh, hset⟩
    · simp at h

/-- What a step into a leaf's route sets is there afterwards. -/
theorem child?_put_cons {s : Step} {r : Route} {v x : Value} (h : leaf? (s :: r) v = some x)
    (w : Value) :
    child? s (put (s :: r) w v) = some (put r w ((child? s v).getD absent)) := by
  apply child?_setChild_self
  rcases leaf?_cons_eq_some h with ⟨y, hy, -⟩ | ⟨-, -, hfresh, -⟩
  · exact .inl (by simp [hy])
  · exact .inr (by simp [hfresh])

/-- Two routes with one first step put inside what that step leads to. -/
theorem put_cons_put_cons {s : Step} {r : Route} {v x : Value} (h : leaf? (s :: r) v = some x)
    (q : Route) (w w' : Value) :
    put (s :: q) w (put (s :: r) w' v) =
      setChild s (put q w (put r w' ((child? s v).getD absent))) v := by
  rw [put, child?_put_cons h, Option.getD_some, put, setChild_setChild_self]

/-- A value with a leaf inside is not a scalar. -/
theorem not_isSettable_of_leaf?_cons {s : Step} {r : Route} {v x : Value}
    (h : leaf? (s :: r) v = some x) : v.isSettable = false := by
  by_contra hv
  rw [leaf?_cons_of_isSettable (by simpa using hv)] at h
  simp at h

theorem isSettable_of_leaf?_nil {v x : Value} (h : leaf? [] v = some x) : v.isSettable := by
  simp only [leaf?] at h
  split at h
  · assumption
  · simp at h

@[simp] theorem isSettable_setChild (s : Step) (w v : Value) :
    (setChild s w v).isSettable = v.isSettable := by
  cases v <;> cases s <;> rfl

/-! ## §4 Leaves at different routes -/

/-- What was put is the leaf. -/
theorem leaf?_put_self {r : Route} {v x w : Value} (h : leaf? r v = some x) (hw : w.isSettable) :
    leaf? r (put r w v) = some w := by
  induction r generalizing v with
  | nil => simp [leaf?, put, hw]
  | cons s r ih =>
    rw [leaf?, child?_put_cons h]
    rcases leaf?_cons_eq_some h with ⟨y, hy, hleaf⟩ | ⟨-, rfl, -, -⟩
    · simpa [hy] using ih hleaf
    · simp [leaf?, put, hw]

/-- Putting at one leaf neither moves, makes nor hides another. -/
theorem leaf?_put_of_ne {q r : Route} {v x w : Value} (h : leaf? r v = some x)
    (hw : w.isSettable) (hne : q ≠ r) : leaf? q (put r w v) = leaf? q v := by
  induction r generalizing q v with
  | nil =>
    -- the leaf is the whole value, so no other route leads anywhere
    obtain ⟨s, q, rfl⟩ := List.exists_cons_of_ne_nil hne
    rw [put, leaf?_cons_of_isSettable hw, leaf?_cons_of_isSettable (isSettable_of_leaf?_nil h)]
  | cons t r ih =>
    cases q with
    | nil =>
      have hv := not_isSettable_of_leaf?_cons h
      simp [leaf?, put, hv]
    | cons s q =>
      by_cases hst : s = t
      · subst hst
        have hqr : q ≠ r := by
          intro hqr
          exact hne (by rw [hqr])
        rw [leaf?, child?_put_cons h]
        rcases leaf?_cons_eq_some h with ⟨y, hy, hleaf⟩ | ⟨hnone, rfl, -, -⟩
        · simpa [leaf?, hy] using ih hleaf hqr
        · -- the entry was made for the other route, and it is a scalar
          obtain ⟨t, q, rfl⟩ := List.exists_cons_of_ne_nil hqr
          simp [leaf?, hnone, put, child?_of_isSettable hw, fresh?_of_isSettable hw]
      · simp only [leaf?, put, child?_setChild_of_ne hst, fresh?_setChild]

/-- Of two puts at one leaf the later counts. -/
theorem put_put_self {r : Route} {v x : Value} (h : leaf? r v = some x) (w w' : Value) :
    put r w (put r w' v) = put r w v := by
  induction r generalizing v with
  | nil => rfl
  | cons s r ih =>
    rw [put_cons_put_cons h, put]
    congr 1
    rcases leaf?_cons_eq_some h with ⟨y, hy, hleaf⟩ | ⟨-, rfl, -, -⟩
    · simpa [hy] using ih hleaf
    · rfl

/-- Puts at different leaves commute. -/
theorem put_comm {q r : Route} {v x y : Value} (hq : leaf? q v = some x) (hr : leaf? r v = some y)
    (hne : q ≠ r) (w w' : Value) : put q w (put r w' v) = put r w' (put q w v) := by
  induction r generalizing q v with
  | nil =>
    -- a scalar has no other leaf
    obtain ⟨s, q, rfl⟩ := List.exists_cons_of_ne_nil hne
    rw [leaf?_cons_of_isSettable (isSettable_of_leaf?_nil hr)] at hq
    simp at hq
  | cons t r ih =>
    cases q with
    | nil =>
      rw [leaf?_cons_of_isSettable (isSettable_of_leaf?_nil hq)] at hr
      simp at hr
    | cons s q =>
      by_cases hst : s = t
      · subst hst
        have hqr : q ≠ r := by
          intro hqr
          exact hne (by rw [hqr])
        rw [put_cons_put_cons hr, put_cons_put_cons hq]
        congr 1
        -- of two routes into one map entry that is not there, both are at their end
        rcases leaf?_cons_eq_some hq with ⟨z, hz, hleafq⟩ | ⟨hnone, rfl, -, -⟩
        · rcases leaf?_cons_eq_some hr with ⟨z', hz', hleafr⟩ | ⟨hnone, -, -, -⟩
          · obtain rfl : z = z' := by simpa [hz] using hz'
            simpa [hz] using ih hleafq hleafr hqr
          · simp [hz] at hnone
        · rcases leaf?_cons_eq_some hr with ⟨z, hz, -⟩ | ⟨-, rfl, -, -⟩
          · simp [hnone] at hz
          · exact absurd rfl hqr
      · simp only [put, child?_setChild_of_ne hst, child?_setChild_of_ne (Ne.symm hst)]
        exact setChild_comm hst _ _ v

/-! ## §5 Leaves that are there -/

/-- Putting back what is there changes nothing. -/
theorem put_at? {r : Route} {v w : Value} (h : at? r v = some w) : put r w v = v := by
  induction r generalizing v with
  | nil =>
    simp only [at?, Option.some.injEq] at h
    rw [put, h]
  | cons s r ih =>
    obtain ⟨y, hy, hat⟩ := Option.bind_eq_some_iff.mp h
    rw [put, hy, Option.getD_some, ih hat, setChild_child? hy]

/-- A leaf that is there is the one that an overwrite finds. -/
theorem leaf?_of_at? {r : Route} {v x : Value} (h : at? r v = some x) (hx : x.isSettable) :
    leaf? r v = some x := by
  induction r generalizing v with
  | nil =>
    simp only [at?, Option.some.injEq] at h
    simp [leaf?, h, hx]
  | cons s r ih =>
    obtain ⟨y, hy, hat⟩ := Option.bind_eq_some_iff.mp h
    simpa [leaf?, hy] using ih hat

/-- A leaf is there, or it is the start of a new entry of a map. -/
theorem at?_of_leaf? {r : Route} {v x : Value} (h : leaf? r v = some x) :
    at? r v = some x ∨
      ∃ outer name e entries, r = outer ++ [.key name] ∧ at? outer v = some (map e entries) ∧
        Keyed.get? name entries = none ∧ e.zero = x := by
  induction r generalizing v with
  | nil =>
    have hv := isSettable_of_leaf?_nil h
    exact .inl (by simpa [leaf?, hv, at?] using h)
  | cons s r ih =>
    rcases leaf?_cons_eq_some h with ⟨y, hy, hleaf⟩ | ⟨hnone, rfl, hfresh, -⟩
    · rcases ih hleaf with hat | ⟨outer, name, e, entries, rfl, hmap, hget, hzero⟩
      · exact .inl (by simpa [at?, hy] using hat)
      · refine .inr ⟨s :: outer, name, e, entries, rfl, ?_, hget, hzero⟩
        simpa [at?, hy] using hmap
    · -- only a map has something ready
      cases v <;> cases s <;> try simp [fresh?] at hfresh
      case map.key e entries name =>
        exact .inr ⟨[], name, e, entries, rfl, rfl, hnone, hfresh⟩

end Value

end Testbed

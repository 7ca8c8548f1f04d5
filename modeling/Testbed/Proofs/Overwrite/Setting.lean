import Testbed.Proofs.Results
import Testbed.Proofs.Value.Place

/-!
# Overwriting is setting a leaf

Following the segments of a route and setting the scalar at their end comes to this: look up the
leaf at the route, store the text in it, put the result back in its place. `setLeaf?` says so in
one line and `setAt_toOption` proves it of the walk over slots, items and entries; everything
else about overwrites that succeed follows from the laws of places.
-/

namespace Testbed

open Number

/-! ## §1 Segments as routes -/

namespace Segment

/-- The steps of a segment: a key, and an index where there is one. -/
def steps (s : Segment) : Route :=
  .key s.name :: (s.index.map Step.index).toList

/-- The route that segments stand for. -/
def route (segments : List Segment) : Route :=
  segments.flatMap steps

@[simp] theorem route_nil : route [] = [] := rfl

theorem route_cons (s : Segment) (segments : List Segment) :
    route (s :: segments) = .key s.name :: ((s.index.map Step.index).toList ++ route segments) :=
  rfl

/-- The route of segments begins with a name. -/
theorem route_ne_index_cons (segments : List Segment) (i : Nat) (r : Route) :
    route segments ≠ .index i :: r := by
  cases segments with
  | nil => simp
  | cons s segments => simp [route_cons]

theorem route_eq_nil_iff {segments : List Segment} : route segments = [] ↔ segments = [] := by
  cases segments with
  | nil => simp
  | cons s segments => simp [route_cons]

/-- Different segments stand for different routes. -/
theorem route_injective : Function.Injective route := by
  intro a
  induction a with
  | nil =>
    intro b h
    exact (route_eq_nil_iff.mp h.symm).symm
  | cons s a ih =>
    intro b h
    cases b with
    | nil => simp [route_cons] at h
    | cons t b =>
      obtain ⟨name, index⟩ := s
      obtain ⟨name', index'⟩ := t
      simp only [route_cons, List.cons.injEq, Step.key.injEq] at h
      obtain ⟨rfl, htail⟩ := h
      -- an index tells the two apart where only one of them has it
      cases index with
      | none =>
        cases index' with
        | none => rw [ih (by simpa using htail)]
        | some j => exact absurd htail (route_ne_index_cons a j _)
      | some i =>
        cases index' with
        | none => exact absurd htail.symm (route_ne_index_cons b i _)
        | some j =>
          simp only [Option.map_some, Option.toList_some, List.cons_append, List.nil_append,
            List.cons.injEq, Step.index.injEq] at htail
          rw [htail.1, ih htail.2]

end Segment

/-! ## §2 Edits that succeed -/

namespace After

variable {ε α β : Type}

/-- What an edit makes, if it succeeds. -/
def toOption (a : After ε α) : Option α :=
  if a.fault = none then some a.value else none

@[simp] theorem toOption_done (value : α) : (done value : After ε α).toOption = some value := rfl

@[simp] theorem toOption_failed (fault : ε) (value : α) :
    (failed fault value).toOption = none := rfl

@[simp] theorem toOption_map (f : α → β) (a : After ε α) :
    (a.map f).toOption = a.toOption.map f := by
  obtain ⟨fault, value⟩ := a
  cases fault <;> rfl

theorem toOption_eq_some_iff {a : After ε α} {value : α} :
    a.toOption = some value ↔ a = done value := by
  obtain ⟨fault, w⟩ := a
  cases fault <;> simp [toOption, done]

end After

namespace Value

/-- What a text makes of a scalar. -/
def store? (raw : String) (v : Value) : Option Value :=
  (setScalar raw v).toOption

/-- The value with a text stored in the leaf at a route. -/
def setLeaf? (raw : String) (r : Route) (v : Value) : Option Value :=
  (leaf? r v).bind fun x => (store? raw x).map fun w => put r w v

/-- A leaf is set if there is one at the route which takes the text. -/
theorem setLeaf?_eq_some_iff {raw : String} {r : Route} {v v' : Value} :
    setLeaf? raw r v = some v' ↔
      ∃ x w, leaf? r v = some x ∧ store? raw x = some w ∧ put r w v = v' := by
  simp only [setLeaf?, Option.bind_eq_some_iff, Option.map_eq_some_iff]
  grind

/-- A first step is taken before the leaf is set, and its value put back afterwards. -/
theorem setLeaf?_cons (raw : String) (s : Step) (r : Route) (v : Value) :
    setLeaf? raw (s :: r) v =
      match child? s v with
      | some y => (setLeaf? raw r y).map fun w => setChild s w v
      | none =>
        if r = [] then
          ((fresh? s v).filter isSettable).bind fun x =>
            (store? raw x).map fun w => setChild s w v
        else none := by
  rw [setLeaf?, leaf?]
  cases hchild : child? s v with
  | some y => simp [setLeaf?, put, hchild, Option.map_bind, Function.comp_def]
  | none =>
    -- only the last step can make an entry
    by_cases hr : r = []
    · subst hr
      simp [put]
    · simp [hr]

theorem setLeaf?_nil (raw : String) (v : Value) :
    setLeaf? raw [] v = if v.isSettable then store? raw v else none := by
  rw [setLeaf?, leaf?]
  split <;> simp [put]

/-- Where there is no value there is no leaf. -/
theorem setLeaf?_absent (raw : String) (r : Route) : setLeaf? raw r absent = none := by
  cases r with
  | nil => rfl
  | cons s r => cases s <;> simp [setLeaf?_cons, child?, fresh?]

/-! ## §3 The edits that lead inside -/

variable {edit : Edit}

/-- Editing a slot gives the slots with the edited value in it. -/
theorem editSlot_toOption (habsent : (edit absent).toOption = none) (name : String)
    (slots : Slots) :
    (editSlot name edit slots).toOption =
      (slotNamed? name slots).bind fun v => (edit v).toOption.map fun w => putSlot name w slots := by
  induction slots with
  | nil => rfl
  | cons e rest ih =>
    obtain ⟨field, v⟩ := e
    unfold editSlot slotNamed? putSlot Field.documentName?
    cases hread : Directives.read field.tag with
    | error key => rfl
    | ok d =>
      simp only
      by_cases hname : d.name?.getD field.ident = name
      · simp only [hname, if_true, Option.bind_some]
        cases v <;> simp [habsent]
      · simp only [hname, if_false, After.toOption_map, ih, Option.map_bind]
        congr 1
        funext x
        simp [Function.comp_def]

theorem editKey_toOption (key : String) (entries : List (String × Value)) :
    (editKey key edit entries).toOption =
      (Keyed.get? key entries).bind fun v =>
        (edit v).toOption.map fun w => Keyed.replace key w entries := by
  induction entries with
  | nil => rfl
  | cons e rest ih =>
    obtain ⟨k, v⟩ := e
    unfold editKey Keyed.get? Keyed.replace
    by_cases hk : k = key
    · simp [hk]
    · -- the entry in front is put back before whatever becomes of the rest
      simp only [hk, if_false, After.toOption_map, ih, Option.map_bind]
      congr 1
      funext x
      simp [Function.comp_def]

/-- Setting an entry edits the one that is there, or a new one. -/
theorem setEntry_toOption (element : Shape) (key : String) (entries : List (String × Value)) :
    (setEntry element key edit entries).toOption =
      (edit ((Keyed.get? key entries).getD element.zero)).toOption.map fun w =>
        Keyed.put key w entries := by
  unfold setEntry Keyed.put
  by_cases hhas : Keyed.has key entries
  · obtain ⟨v, hv⟩ := Option.isSome_iff_exists.mp hhas
    simp [hhas, editKey_toOption, hv]
  · -- the edit is tried on the zero value first
    have hnone : Keyed.get? key entries = none := by simpa [Keyed.has] using hhas
    simp only [hhas, hnone, Option.getD_none]
    cases hfault : (edit element.zero).fault <;>
      simp [After.toOption, After.done, After.failed, hfault]

theorem editItem_toOption (index length position : Nat) (items : List Value) :
    (editItem index length edit position items).toOption =
      items[position]?.bind fun v => (edit v).toOption.map fun w => items.set position w := by
  induction items generalizing position with
  | nil => cases position <;> rfl
  | cons v rest ih =>
    cases position with
    | zero => simp [editItem]
    | succ i =>
      simp only [editItem, After.toOption_map, ih, Option.map_bind, List.getElem?_cons_succ]
      congr 1
      funext x
      simp [Function.comp_def]

/-- Editing behind an index sets the leaf at the rest of the route. -/
theorem editIndexed_toOption {raw : String} {r : Route}
    (hedit : ∀ v, (edit v).toOption = setLeaf? raw r v) (hr : ∀ i q, r ≠ .index i :: q)
    (segment : Segment) (v : Value) :
    (editIndexed segment edit v).toOption =
      setLeaf? raw ((segment.index.map Step.index).toList ++ r) v := by
  obtain ⟨name, index⟩ := segment
  cases index with
  | none =>
    cases v with
    | list e items =>
      -- neither a scalar nor something with keys
      cases r with
      | nil => simp [editIndexed, setLeaf?_nil, isSettable]
      | cons s q =>
        cases s with
        | index i => exact absurd rfl (hr i q)
        | key key => simp [editIndexed, setLeaf?_cons, child?, fresh?]
    | _ => simp [editIndexed, hedit]
  | some i =>
    cases v with
    | list e items =>
      -- an index out of range fails, and so does looking it up
      simp only [editIndexed, After.toOption_map, editItem_toOption, hedit, Option.map_some,
        Option.toList_some, List.cons_append, List.nil_append, setLeaf?_cons, child?]
      cases items[i]? with
      | none => simp [fresh?]
      | some y => simp [setChild, Function.comp_def]
    | _ => simp [editIndexed, setLeaf?_cons, child?, fresh?]

/-! ## §4 The whole edit -/

/-- Following segments and setting the scalar at their end is setting the leaf at their route. -/
theorem setAt_toOption (raw : String) (segments : List Segment) (v : Value) :
    (setAt raw segments v).toOption = setLeaf? raw (Segment.route segments) v := by
  induction segments generalizing v with
  | nil =>
    rw [Segment.route_nil, setLeaf?_nil]
    cases v <;> simp [setAt, isSettable, store?, setScalar]
  | cons segment rest ih =>
    have hinside := editIndexed_toOption ih (Segment.route_ne_index_cons rest) segment
    rw [Segment.route_cons, setLeaf?_cons]
    cases v with
    | record variant slots =>
      -- a slot without a value is refused before the edit, which would fail there as well
      have habsent : (editIndexed segment (setAt raw rest) absent).toOption = none := by
        rw [hinside, setLeaf?_absent]
      simp only [setAt, After.toOption_map, editSlot_toOption habsent, hinside, child?]
      cases slotNamed? segment.name slots with
      | none => simp [fresh?]
      | some y => simp [setChild, Function.comp_def]
    | map e entries =>
      by_cases hlast : rest = [] ∧ segment.index = none
      · -- the last step, and so it may make a new entry
        obtain ⟨rfl, hindex⟩ := hlast
        rw [setAt]
        simp only [hindex, and_self, if_true, After.toOption_map, setEntry_toOption, hinside,
          child?, Option.map_none, Option.toList_none, List.nil_append, Segment.route_nil]
        cases Keyed.get? segment.name entries with
        | none => cases hzero : e.zero.isSettable <;>
            simp [fresh?, setLeaf?_nil, setChild, Option.filter, hzero, Function.comp_def]
        | some y => simp [setChild, Function.comp_def]
      · -- not the last step: a key that is missing leads nowhere
        have htail : (segment.index.map Step.index).toList ++ Segment.route rest ≠ [] := by
          intro htail
          obtain ⟨hindex, hroute⟩ := List.append_eq_nil_iff.mp htail
          exact hlast ⟨Segment.route_eq_nil_iff.mp hroute, by simpa using hindex⟩
        simp only [setAt, hlast, htail, if_false, After.toOption_map, editKey_toOption, hinside,
          child?]
        cases hget : Keyed.get? segment.name entries with
        | none => rfl
        | some y => simp [setChild, Keyed.put, Keyed.has, hget, Function.comp_def]
    | _ => simp [setAt, child?, fresh?]

/-- An overwrite succeeds where its route can be read and leads to a leaf that takes the text. -/
theorem overwrite_toOption (route raw : String) (v : Value) :
    (overwrite route raw v).toOption =
      (Segment.readRoute route).toOption.bind fun segments =>
        setLeaf? raw (Segment.route segments) v := by
  unfold overwrite
  cases Segment.readRoute route with
  | error cause => rfl
  | ok segments =>
    simp only [Except.toOption, Option.bind_some, ← setAt_toOption]
    cases hfault : (setAt raw segments v).fault <;> simp [After.toOption, hfault]

/-! ## §5 Stored scalars -/

theorem store?_text (raw s : String) : store? raw (text s) = some (text raw) := rfl

/-- An integer leaf takes the numerals of integers within its width. -/
theorem store?_int (raw : String) (k : IntWidth) (n : Int) :
    store? raw (int k n) =
      (readInt IntWidth.i64.low IntWidth.i64.high raw.toList).toOption.bind (ofInt? k) := by
  simp only [store?, setScalar]
  cases readInt IntWidth.i64.low IntWidth.i64.high raw.toList with
  | ok m => cases hstored : ofInt? k m <;> simp [Except.toOption, hstored]
  | error fault => cases fault <;> rfl

theorem store?_float (raw : String) (k : FloatWidth) (x : Binary) :
    store? raw (float k x) = (readFloat raw.toList).toOption.bind (ofFloat? k) := by
  simp only [store?, setScalar]
  cases readFloat raw.toList with
  | ok y => cases hstored : ofFloat? k y <;> simp [Except.toOption, hstored]
  | error fault => rfl

theorem ofInt?_eq_some_iff {k : IntWidth} {n : Int} {w : Value} :
    ofInt? k n = some w ↔ k.holds n = true ∧ int k n = w := by
  unfold ofInt?
  split <;> simp_all

theorem ofFloat?_eq_some {k : FloatWidth} {x : Binary} {w : Value} (h : ofFloat? k x = some w) :
    ∃ y, w = float k y := by
  cases k with
  | f64 => exact ⟨x, by simpa [ofFloat?] using h.symm⟩
  | f32 =>
    unfold ofFloat? at h
    simp only at h
    split at h
    · simp at h
    · exact ⟨x.toSingle, by simpa using h.symm⟩

/-- What a text makes of a scalar depends on the kind of the scalar alone: storing it once more
    makes the same. -/
theorem store?_of_store?_eq_some {raw : String} {x w : Value} (h : store? raw x = some w) :
    w.isSettable ∧ store? raw w = some w := by
  cases x with
  | text s =>
    obtain rfl : text raw = w := by simpa [store?_text] using h
    exact ⟨rfl, rfl⟩
  | int k n =>
    rw [store?_int] at h
    obtain ⟨m, -, hm⟩ := Option.bind_eq_some_iff.mp h
    obtain ⟨-, rfl⟩ := ofInt?_eq_some_iff.mp hm
    exact ⟨rfl, by rw [store?_int, h]⟩
  | float k x =>
    rw [store?_float] at h
    obtain ⟨y, -, hy⟩ := Option.bind_eq_some_iff.mp h
    obtain ⟨z, rfl⟩ := ofFloat?_eq_some hy
    exact ⟨rfl, by rw [store?_float, h]⟩
  | _ => simp [store?, setScalar] at h

end Value

end Testbed

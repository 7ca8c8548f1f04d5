import Testbed.Proofs.Data.Leaves
import Testbed.Proofs.Keyed.Around

/-!
# Data in order

The maps of data that was read from a document stand in the order of their keys. The order is passed
on to what is inside of the data, can be checked by evaluation (`ordered_of_isSorted`), and makes
putting back what is there change nothing (`Ordered.put_at?`).
-/

namespace Testbed.Data

/-- Maps stand in the order of their keys, at the top of the data at least. -/
def IsOrdered (x : Data) : Prop :=
  ∀ es, x = map es → Keyed.Ordered es

theorem Ordered.isOrdered {x : Data} (h : Ordered x) : x.IsOrdered := by
  rintro es rfl
  cases h with
  | map horder _ => exact horder

theorem Ordered.of_isScalar {x : Data} (h : x.isScalar = true) : x.Ordered := by
  cases x with
  | map _ => cases h
  | list _ => cases h
  | _ => constructor

theorem Ordered.entry {es : List (String × Data)} {key : String} {x : Data}
    (h : Ordered (Data.map es)) (hx : (key, x) ∈ es) : x.Ordered := by
  cases h with
  | map _ hentries => exact hentries key x hx

theorem Ordered.item {xs : List Data} {x : Data} (h : Ordered (Data.list xs)) (hx : x ∈ xs) :
    x.Ordered := by
  cases h with
  | list hitems => exact hitems x hx

theorem ordered_nil : Ordered (Data.map []) :=
  .map .nil nofun

theorem Ordered.singleton {x : Data} (hx : x.Ordered) (key : String) :
    Ordered (Data.map [(key, x)]) := by
  refine .map (by simp [Keyed.Ordered]) fun k y hy => ?_
  obtain ⟨rfl, rfl⟩ := Prod.mk.inj (List.mem_singleton.mp hy)
  exact hx

/-- A map stays in order when an entry is inserted. -/
theorem Ordered.insert {key : String} {x : Data} {es : List (String × Data)}
    (h : Ordered (Data.map es)) (hx : x.Ordered) : Ordered (Data.map (Keyed.insert key x es)) := by
  cases h with
  | map horder hentries =>
    refine .map (horder.insert key x) fun k y hy => ?_
    rcases Keyed.mem_insert hy with heq | hy
    · obtain ⟨rfl, rfl⟩ := Prod.mk.inj heq
      exact hx
    · exact hentries k y hy

/-- A map is made in order from entries in any order. -/
theorem Ordered.ofList {es : List (String × Data)} (h : ∀ e ∈ es, e.2.Ordered) :
    Ordered (Data.map (Keyed.ofList es)) :=
  .map (Keyed.ordered_ofList es) fun _ _ hy => h _ (Keyed.mem_ofList hy)

/-- No key comes again. -/
theorem Ordered.notMem_keys {before after : List (String × Data)} {key : String} {x : Data}
    (h : Ordered (Data.map (before ++ (key, x) :: after))) : key ∉ Keyed.keys after := by
  have hnodup := (h.isOrdered _ rfl).nodup_keys
  rw [Keyed.keys, List.map_append, List.map_cons] at hnodup
  exact (List.nodup_cons.mp (List.nodup_append.mp hnodup).2.1).1

theorem Ordered.child? {x y : Data} (h : Ordered x) {t : Step} (hy : Data.child? t x = some y) :
    Ordered y := by
  cases h with
  | list hitems =>
    cases t with
    | key name => simp [Data.child?] at hy
    | index i => exact hitems y (List.mem_of_getElem? hy)
  | map _ hentries =>
    cases t with
    | key name => exact hentries name y (Keyed.mem_of_get?_eq_some hy)
    | index i => simp [Data.child?] at hy
  | _ => cases t <;> simp [Data.child?] at hy

mutual
/-- Whether all maps inside of the data stand in the order of their keys. -/
def isSorted : Data → Bool
  | list items => itemsSorted items
  | map entries => decide (Keyed.Ordered entries) && entriesSorted entries
  | _ => true
/-- Whether all maps inside of the items of a list do. -/
def itemsSorted : List Data → Bool
  | [] => true
  | x :: rest => x.isSorted && itemsSorted rest
/-- Whether all maps inside of the entries of a map do. -/
def entriesSorted : List (String × Data) → Bool
  | [] => true
  | (_, x) :: rest => x.isSorted && entriesSorted rest
end

mutual
/-- Data that passes the check is in order. -/
theorem ordered_of_isSorted : (x : Data) → x.isSorted = true → Ordered x
  | null, _ => .null
  | bool b, _ => .bool b
  | int n, _ => .int n
  | float y, _ => .float y
  | text s, _ => .text s
  | list items, h => .list (ordered_of_itemsSorted items h)
  | map entries, h => by
    simp only [isSorted, Bool.and_eq_true, decide_eq_true_eq] at h
    exact .map h.1 (ordered_of_entriesSorted entries h.2)
theorem ordered_of_itemsSorted : (items : List Data) → itemsSorted items = true →
    ∀ x ∈ items, Ordered x
  | [], _ => by simp
  | x :: rest, h => by
    simp only [itemsSorted, Bool.and_eq_true] at h
    exact List.forall_mem_cons.mpr
      ⟨ordered_of_isSorted x h.1, ordered_of_itemsSorted rest h.2⟩
theorem ordered_of_entriesSorted : (entries : List (String × Data)) →
    entriesSorted entries = true → ∀ name x, (name, x) ∈ entries → Ordered x
  | [], _ => by simp
  | (key, y) :: rest, h => by
    simp only [entriesSorted, Bool.and_eq_true] at h
    intro name x hmem
    rcases List.mem_cons.mp hmem with heq | hmem
    · obtain ⟨-, rfl⟩ := Prod.mk.inj heq
      exact ordered_of_isSorted x h.1
    · exact ordered_of_entriesSorted rest h.2 name x hmem
end

theorem isScalar_of_child? {x y : Data} {t : Step} (hy : child? t x = some y) :
    x.isScalar = false := by
  cases x with
  | map es => rfl
  | list xs => rfl
  | _ => cases t <;> simp [child?] at hy

theorem isScalar_setChild (t : Step) (x y : Data) : (setChild t y x).isScalar = x.isScalar := by
  cases x <;> cases t <;> rfl

/-- Putting back what is there changes nothing. -/
theorem Ordered.put_at? {x y : Data} (hx : Ordered x) {r : Route} (h : at? r x = some y) :
    put r y x = x := by
  induction r generalizing x with
  | nil => exact (Option.some.inj h).symm
  | cons t r ih =>
    obtain ⟨z, hz, hat⟩ := Option.bind_eq_some_iff.mp h
    rw [put, hz, Option.getD_some, ih (hx.child? hz) hat]
    cases x with
    | map es =>
      cases t with
      | key key =>
        obtain ⟨before, after, rfl, -, hinsert⟩ := (hx.isOrdered es rfl).split hz
        rw [setChild, hinsert]
      | index i => rfl
    | list xs =>
      cases t with
      | key key => rfl
      | index i =>
        obtain ⟨hi, rfl⟩ := List.getElem?_eq_some_iff.mp hz
        simp [setChild]
    | _ => rfl

/-- What a route leads to is in order. -/
theorem Ordered.at? {x y : Data} (h : x.Ordered) {r : Route} (hy : Data.at? r x = some y) :
    y.Ordered := by
  induction r generalizing x with
  | nil => exact Option.some.inj hy ▸ h
  | cons t r ih =>
    obtain ⟨z, hz, hat⟩ := Option.bind_eq_some_iff.mp hy
    exact ih (h.child? hz) hat

end Testbed.Data

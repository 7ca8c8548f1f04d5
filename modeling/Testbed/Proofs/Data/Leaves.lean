import Testbed.Proofs.Data.Route
import Testbed.Value.Leaves

/-!
# Places of leaves

`places` are the scalars inside data, each with the route that leads to it. A listing is the places
of all scalars with their routes and values as text (`leaves_entries`), and in data whose maps are
ordered every place is where it says it is (`at?_of_mem_places`).
-/

namespace Testbed

namespace Route

/-- The text of a route behind the text of what it starts from, as a listing writes it. -/
def textFrom (start : String) : Route → String
  | [] => start
  | .key name :: r => textFrom (Data.keyRoute start name) r
  | .index i :: r => textFrom (Data.indexRoute start i) r

/-- The text of a route. -/
def text (r : Route) : String :=
  textFrom "" r

end Route

namespace Data

/-! ## §1 Places -/

mutual
/-- The scalars inside data, each with the route to it. -/
def places : Data → List (Route × Data)
  | map entries => entryPlaces entries
  | list items => itemPlaces 0 items
  | null => [([], null)]
  | bool b => [([], bool b)]
  | int n => [([], int n)]
  | float x => [([], float x)]
  | text s => [([], text s)]
/-- The scalars inside the entries of a map. -/
def entryPlaces : List (String × Data) → List (Route × Data)
  | [] => []
  | (name, d) :: rest => (places d).map (fun p => (.key name :: p.1, p.2)) ++ entryPlaces rest
/-- The scalars inside the items of a list, the first of which has the given index. -/
def itemPlaces : Nat → List Data → List (Route × Data)
  | _, [] => []
  | i, d :: rest => (places d).map (fun p => (.index i :: p.1, p.2)) ++ itemPlaces (i + 1) rest
end

/-- The text that a scalar is listed with. -/
def leafText : Data → String
  | text s => s
  | d => Json.render d

mutual
/-- The leaves of data are its places, each with the text of its route. -/
theorem leavesAt_eq (start : String) : (d : Data) →
    leavesAt start d = (places d).map fun p => (Route.textFrom start p.1, leafText p.2)
  | map entries => entryLeaves_eq start entries
  | list items => itemLeaves_eq start 0 items
  | null => rfl
  | bool _ => rfl
  | int _ => rfl
  | float _ => rfl
  | text _ => rfl
theorem entryLeaves_eq (start : String) : (entries : List (String × Data)) →
    entryLeaves start entries =
      (entryPlaces entries).map fun p => (Route.textFrom start p.1, leafText p.2)
  | [] => rfl
  | (name, d) :: rest => by
    rw [entryLeaves, entryPlaces, leavesAt_eq (keyRoute start name) d, entryLeaves_eq start rest,
      List.map_append, List.map_map]
    rfl
theorem itemLeaves_eq (start : String) : (i : Nat) → (items : List Data) →
    itemLeaves start i items =
      (itemPlaces i items).map fun p => (Route.textFrom start p.1, leafText p.2)
  | _, [] => rfl
  | i, d :: rest => by
    rw [itemLeaves, itemPlaces, leavesAt_eq (indexRoute start i) d, itemLeaves_eq start (i + 1) rest,
      List.map_append, List.map_map]
    rfl
end

/-- A listing is the places of the leaves as text. -/
theorem leaves_entries (d : Data) :
    (leaves d).entries = (places d).map fun p => (Route.text p.1, leafText p.2) :=
  leavesAt_eq "" d

/-! ## §2 Where places are -/

/-- Data whose maps stand in the order of their keys. -/
inductive Ordered : Data → Prop
  | null : Ordered null
  | bool (b : Bool) : Ordered (bool b)
  | int (n : Int) : Ordered (int n)
  | float (x : Number.Binary) : Ordered (float x)
  | text (s : String) : Ordered (text s)
  | list {items : List Data} (hitems : ∀ d ∈ items, Ordered d) : Ordered (list items)
  | map {entries : List (String × Data)} (horder : Keyed.Ordered entries)
      (hentries : ∀ name d, (name, d) ∈ entries → Ordered d) : Ordered (map entries)

/-- Whether nothing is inside the data. -/
def isScalar : Data → Bool
  | map _ => false
  | list _ => false
  | _ => true

variable {r : Route} {l : Data}

/-- A place in a map is one in an entry, behind its key. -/
theorem mem_entryPlaces {entries : List (String × Data)} (h : (r, l) ∈ entryPlaces entries) :
    ∃ name d q, (name, d) ∈ entries ∧ r = .key name :: q ∧ (q, l) ∈ places d := by
  induction entries with
  | nil => simp [entryPlaces] at h
  | cons e rest ih =>
    obtain ⟨name, d⟩ := e
    rw [entryPlaces, List.mem_append] at h
    rcases h with h | h
    · obtain ⟨⟨q, l⟩, hq, heq⟩ := List.mem_map.mp h
      obtain ⟨rfl, rfl⟩ := Prod.mk.inj heq
      exact ⟨name, d, q, List.mem_cons_self, rfl, hq⟩
    · obtain ⟨name', d', q, hmem, hr, hq⟩ := ih h
      exact ⟨name', d', q, List.mem_cons_of_mem _ hmem, hr, hq⟩

theorem mem_itemPlaces {i : Nat} {items : List Data} (h : (r, l) ∈ itemPlaces i items) :
    ∃ j d q, items[j]? = some d ∧ r = .index (i + j) :: q ∧ (q, l) ∈ places d := by
  induction items generalizing i with
  | nil => simp [itemPlaces] at h
  | cons d rest ih =>
    rw [itemPlaces, List.mem_append] at h
    rcases h with h | h
    · obtain ⟨⟨q, l⟩, hq, heq⟩ := List.mem_map.mp h
      obtain ⟨rfl, rfl⟩ := Prod.mk.inj heq
      exact ⟨0, d, q, rfl, rfl, hq⟩
    · obtain ⟨j, d', q, hget, hr, hq⟩ := ih h
      exact ⟨j + 1, d', q, hget, by rw [hr, Nat.add_right_comm, Nat.add_assoc], hq⟩

/-- Every place is a scalar, and stands where its route leads. -/
theorem at?_of_mem_places {d : Data} (hd : Ordered d) (h : (r, l) ∈ places d) :
    at? r d = some l ∧ l.isScalar = true := by
  induction hd generalizing r with
  | @list items hitems ih =>
    -- the items are counted from zero
    obtain ⟨j, d, q, hget, rfl, hq⟩ := mem_itemPlaces h
    obtain ⟨hat, hscalar⟩ := ih d (List.mem_of_getElem? hget) hq
    refine ⟨?_, hscalar⟩
    rw [at?, child?, Nat.zero_add, hget]
    exact hat
  | @map entries horder hentries ih =>
    -- the keys being in order, none comes twice, so the entry is the one that is looked up
    obtain ⟨name, d, q, hmem, rfl, hq⟩ := mem_entryPlaces h
    obtain ⟨hat, hscalar⟩ := ih name d hmem hq
    refine ⟨?_, hscalar⟩
    rw [at?, child?, Keyed.get?_eq_some_of_mem horder.nodup_keys hmem]
    exact hat
  | _ =>
    obtain ⟨rfl, rfl⟩ := Prod.mk.inj (List.mem_singleton.mp h)
    exact ⟨rfl, rfl⟩

end Data

end Testbed

import Mathlib.Data.String.Basic
import Testbed.Keyed

/-!
# Entries in the order of their keys

`Ordered` entries stand strictly in the order of their keys, so no key comes twice and two ordered
lists with the same contents are the same list. `insert`, and with it `ofList` and `union`, keep
entries ordered.

`put` is the edit that the value under a key undergoes: an entry that is there is replaced where it
stands, and a missing one is inserted. Its laws hold of all entries, ordered or not; among ordered
entries it is `insert`.
-/

namespace Testbed.Keyed

variable {α β : Type}

/-! ## §1 Looking up -/

/-- The keys of entries, in their order. -/
def keys (entries : List (String × α)) : List String :=
  entries.map (·.1)

@[simp] theorem keys_nil : keys ([] : List (String × α)) = [] := rfl

@[simp] theorem keys_cons (e : String × α) (entries : List (String × α)) :
    keys (e :: entries) = e.1 :: keys entries := rfl

theorem mem_of_get?_eq_some {key : String} {value : α} {entries : List (String × α)}
    (h : get? key entries = some value) : (key, value) ∈ entries := by
  induction entries with
  | nil => simp [get?] at h
  | cons e rest ih =>
    obtain ⟨k, v⟩ := e
    simp only [get?] at h
    split at h
    · next hk =>
      subst hk
      simp only [Option.some.injEq] at h
      simp [h]
    · exact List.mem_cons_of_mem _ (ih h)

theorem get?_eq_none_iff {key : String} {entries : List (String × α)} :
    get? key entries = none ↔ key ∉ keys entries := by
  induction entries with
  | nil => simp [get?]
  | cons e rest ih =>
    obtain ⟨k, v⟩ := e
    by_cases hk : k = key
    · simp [get?, hk]
    · simp [get?, hk, ih, Ne.symm hk]

theorem has_iff_mem_keys {key : String} {entries : List (String × α)} :
    has key entries = true ↔ key ∈ keys entries := by
  rw [← not_iff_not, ← get?_eq_none_iff]
  simp [has]

/-- With distinct keys every entry is found. -/
theorem get?_eq_some_of_mem {key : String} {value : α} {entries : List (String × α)}
    (hd : (keys entries).Nodup) (h : (key, value) ∈ entries) :
    get? key entries = some value := by
  induction entries with
  | nil => simp at h
  | cons e rest ih =>
    obtain ⟨k, v⟩ := e
    obtain ⟨hk, hrest⟩ := List.nodup_cons.mp hd
    rcases List.mem_cons.mp h with he | hmem
    · simp only [Prod.mk.injEq] at he
      simp [get?, he.1, he.2]
    · have hmemKeys : key ∈ keys rest := List.mem_map.mpr ⟨_, hmem, rfl⟩
      have hne : k ≠ key := fun hkey => hk (hkey ▸ hmemKeys)
      simp only [get?, hne, if_false]
      exact ih hrest hmem

theorem get?_map (f : α → β) (key : String) (entries : List (String × α)) :
    get? key (entries.map fun e => (e.1, f e.2)) = (get? key entries).map f := by
  induction entries with
  | nil => rfl
  | cons e rest ih =>
    obtain ⟨k, v⟩ := e
    by_cases hk : k = key <;> simp [get?, hk, ih]

/-! ## §2 Ordered entries -/

/-- Entries that stand strictly in the order of their keys. -/
def Ordered (entries : List (String × α)) : Prop :=
  entries.Pairwise fun a b => a.1 < b.1

instance (entries : List (String × α)) : Decidable (Ordered entries) :=
  inferInstanceAs (Decidable (entries.Pairwise fun a b => a.1 < b.1))

@[simp] theorem ordered_nil : Ordered ([] : List (String × α)) := List.Pairwise.nil

theorem ordered_cons {e : String × α} {entries : List (String × α)} :
    Ordered (e :: entries) ↔ (∀ f ∈ entries, e.1 < f.1) ∧ Ordered entries :=
  List.pairwise_cons

/-- Ordered entries have distinct keys. -/
theorem Ordered.nodup_keys {entries : List (String × α)} (h : Ordered entries) :
    (keys entries).Nodup := by
  induction entries with
  | nil => simp
  | cons e rest ih =>
    obtain ⟨hlt, hrest⟩ := ordered_cons.mp h
    apply List.nodup_cons.mpr
    constructor
    · intro hmem
      obtain ⟨f, hf, hfe⟩ := List.mem_map.mp hmem
      exact absurd (hfe ▸ hlt f hf) (lt_irrefl _)
    · exact ih hrest

theorem Ordered.map {entries : List (String × α)} (h : Ordered entries) (f : α → β) :
    Ordered (entries.map fun e => (e.1, f e.2)) :=
  List.pairwise_map.mpr h

/-- Inserting and changing the values commute. -/
theorem map_insert (f : α → β) (key : String) (value : α) (entries : List (String × α)) :
    (insert key value entries).map (fun e => (e.1, f e.2)) =
      insert key (f value) (entries.map fun e => (e.1, f e.2)) := by
  induction entries with
  | nil => rfl
  | cons d rest ih =>
    simp only [insert, List.map_cons]
    split_ifs <;> simp [ih]

theorem mem_insert {key : String} {value : α} {e : String × α} {entries : List (String × α)}
    (h : e ∈ insert key value entries) : e = (key, value) ∨ e ∈ entries := by
  induction entries with
  | nil => simpa [insert] using h
  | cons d rest ih =>
    obtain ⟨k, v⟩ := d
    unfold insert at h
    split at h
    · rcases List.mem_cons.mp h with he | hmem
      · exact .inl he
      · exact .inr (List.mem_cons_of_mem _ hmem)
    · split at h
      · exact List.mem_cons.mp h
      · rcases List.mem_cons.mp h with he | hmem
        · exact .inr (he ▸ List.mem_cons_self ..)
        · exact (ih hmem).imp_right (List.mem_cons_of_mem _)

/-- An insertion keeps entries ordered. -/
theorem Ordered.insert {entries : List (String × α)} (h : Ordered entries) (key : String)
    (value : α) : Ordered (insert key value entries) := by
  induction entries with
  | nil => simp [Keyed.insert, Ordered]
  | cons d rest ih =>
    obtain ⟨k, v⟩ := d
    obtain ⟨hlt, hrest⟩ := ordered_cons.mp h
    unfold Keyed.insert
    split
    · -- in place of the first entry
      next hk =>
      subst hk
      exact ordered_cons.mpr ⟨hlt, hrest⟩
    · next hne =>
      split
      · -- in front of the first entry, and so of all
        next hkey =>
        apply ordered_cons.mpr
        refine ⟨?_, h⟩
        intro f hf
        rcases List.mem_cons.mp hf with rfl | hf
        · exact hkey
        · exact lt_trans hkey (hlt f hf)
      · -- behind the first entry, which stays in front of all that was behind it
        next hkey =>
        apply ordered_cons.mpr
        refine ⟨?_, ih hrest⟩
        intro f hf
        rcases mem_insert hf with rfl | hf
        · exact lt_of_le_of_ne (not_lt.mp hkey) (Ne.symm hne)
        · exact hlt f hf

/-- Of two ordered lists with the same contents the first entries have one key. -/
private theorem head_key_le {e f : String × α} {es fs : List (String × α)}
    (hf : Ordered (f :: fs)) (h : ∀ key, get? key (e :: es) = get? key (f :: fs)) :
    f.1 ≤ e.1 := by
  have hget : get? e.1 (f :: fs) = some e.2 := by rw [← h]; simp [get?]
  rcases List.mem_cons.mp (mem_of_get?_eq_some hget) with he | hmem
  · exact le_of_eq (by rw [← he])
  · exact le_of_lt ((ordered_cons.mp hf).1 _ hmem)

/-- Ordered lists with the same contents are the same list. -/
theorem Ordered.ext {es fs : List (String × α)} (he : Ordered es) (hf : Ordered fs)
    (h : ∀ key, get? key es = get? key fs) : es = fs := by
  induction es generalizing fs with
  | nil =>
    cases fs with
    | nil => rfl
    | cons f fs => simpa [get?] using h f.1
  | cons e es ih =>
    cases fs with
    | nil => simpa [get?] using h e.1
    | cons f fs =>
      have hkey : e.1 = f.1 :=
        le_antisymm (head_key_le he fun key => (h key).symm) (head_key_le hf h)
      have hvalue : e.2 = f.2 := by simpa [get?, hkey] using h f.1
      have hhead : e = f := Prod.ext hkey hvalue
      subst hhead
      have htail : ∀ key, get? key es = get? key fs := by
        intro key
        by_cases hk : e.1 = key
        · -- the key of the head is not in the tails
          have hes := (List.nodup_cons.mp he.nodup_keys).1
          have hfs := (List.nodup_cons.mp hf.nodup_keys).1
          rw [get?_eq_none_iff.mpr (hk ▸ hes), get?_eq_none_iff.mpr (hk ▸ hfs)]
        · simpa [get?, hk] using h key
      rw [ih (ordered_cons.mp he).2 (ordered_cons.mp hf).2 htail]

/-- Under the inserted key stands the new value, and the others are as before. -/
theorem get?_insert (key other : String) (value : α) (entries : List (String × α)) :
    get? other (insert key value entries) =
      if other = key then some value else get? other entries := by
  split
  · next h => rw [h, get?_insert_self]
  · next h => exact get?_insert_of_ne h value entries

/-! ## §3 Building ordered entries -/

theorem Ordered.union {first : List (String × α)} (h : Ordered first)
    (second : List (String × α)) : Ordered (union first second) := by
  unfold Keyed.union
  induction second generalizing first with
  | nil => exact h
  | cons e rest ih => exact ih (h.insert e.1 e.2)

/-- A map that is made from a list is in order. -/
theorem ordered_ofList (entries : List (String × α)) : Ordered (ofList entries) :=
  ordered_nil.union entries

/-- The entries of a union come from one of its parts. -/
theorem mem_union {e : String × α} {first second : List (String × α)}
    (h : e ∈ union first second) : e ∈ first ∨ e ∈ second := by
  unfold union at h
  induction second generalizing first with
  | nil => exact .inl h
  | cons d rest ih =>
    rcases ih h with hmem | hmem
    · rcases mem_insert hmem with rfl | hmem
      · exact .inr List.mem_cons_self
      · exact .inl hmem
    · exact .inr (List.mem_cons_of_mem _ hmem)

theorem mem_ofList {e : String × α} {entries : List (String × α)} (h : e ∈ ofList entries) :
    e ∈ entries :=
  (mem_union h).resolve_left (by simp)

/-- Entries with distinct keys, put over others, are found first. -/
theorem get?_union {first second : List (String × α)} (h : (keys second).Nodup) (key : String) :
    get? key (union first second) = (get? key second).or (get? key first) := by
  unfold union
  induction second generalizing first with
  | nil => rfl
  | cons e rest ih =>
    obtain ⟨k, v⟩ := e
    obtain ⟨hk, hrest⟩ := List.nodup_cons.mp h
    rw [List.foldl_cons, ih hrest, get?_insert]
    by_cases hkey : key = k
    · subst hkey
      rw [get?_eq_none_iff.mpr hk]
      simp [get?]
    · simp [get?, hkey, Ne.symm hkey]

/-- A union has the keys of both parts. -/
theorem has_union {first second : List (String × α)} (h : (keys second).Nodup) (key : String) :
    has key (union first second) = (has key first || has key second) := by
  rw [has, get?_union h, Option.isSome_or, Bool.or_comm]
  rfl

/-- Of three lists put over each other it does not matter which two are put together first. -/
theorem Ordered.union_assoc {first second third : List (String × α)} (h : Ordered first)
    (h' : Ordered second) (h'' : Ordered third) :
    Keyed.union (Keyed.union first second) third =
      Keyed.union first (Keyed.union second third) := by
  apply ((h.union second).union third).ext (h.union _)
  intro key
  rw [get?_union h''.nodup_keys, get?_union h'.nodup_keys,
    get?_union (h'.union third).nodup_keys, get?_union h''.nodup_keys, Option.or_assoc]

theorem Ordered.nil_union {entries : List (String × α)} (h : Ordered entries) :
    Keyed.union [] entries = entries := by
  apply (ordered_nil.union entries).ext h
  intro key
  rw [get?_union h.nodup_keys]
  simp [get?]

/-- Where no key comes twice, a map that is made from a list has under each what the list has. -/
theorem get?_ofList {entries : List (String × α)} (h : (keys entries).Nodup) (key : String) :
    get? key (ofList entries) = get? key entries :=
  (get?_union h key).trans (by simp [get?])

/-! ## §4 Putting a value under a key -/

/-- The entries with another value in the first entry under a key. -/
def replace (key : String) (value : α) : List (String × α) → List (String × α)
  | [] => []
  | (k, v) :: rest => if k = key then (k, value) :: rest else (k, v) :: replace key value rest

/-- The entries with `value` under `key`: an entry that is there is replaced where it stands. -/
def put (key : String) (value : α) (entries : List (String × α)) : List (String × α) :=
  if has key entries then replace key value entries else insert key value entries

theorem keys_replace (key : String) (value : α) (entries : List (String × α)) :
    keys (replace key value entries) = keys entries := by
  induction entries with
  | nil => rfl
  | cons e rest ih =>
    obtain ⟨k, v⟩ := e
    by_cases hk : k = key <;> simp [replace, hk, ih]

theorem get?_replace (key other : String) (value : α) (entries : List (String × α)) :
    get? other (replace key value entries) =
      if other = key then (get? key entries).map fun _ => value else get? other entries := by
  induction entries with
  | nil => simp [replace, get?]
  | cons e rest ih =>
    obtain ⟨k, v⟩ := e
    by_cases hk : k = key <;> by_cases ho : k = other <;> grind [replace, get?]

theorem replace_get? {key : String} {value : α} {entries : List (String × α)}
    (h : get? key entries = some value) : replace key value entries = entries := by
  induction entries with
  | nil => rfl
  | cons e rest ih =>
    obtain ⟨k, v⟩ := e
    by_cases hk : k = key
    · simp only [get?, hk, if_true, Option.some.injEq] at h
      simp [replace, hk, h]
    · simp only [get?, hk, if_false] at h
      simp [replace, hk, ih h]

theorem replace_replace_self (key : String) (first second : α) (entries : List (String × α)) :
    replace key second (replace key first entries) = replace key second entries := by
  induction entries with
  | nil => rfl
  | cons e rest ih =>
    obtain ⟨k, v⟩ := e
    by_cases hk : k = key <;> simp [replace, hk, ih]

theorem replace_replace_comm {key other : String} (h : key ≠ other) (value second : α)
    (entries : List (String × α)) :
    replace key value (replace other second entries) =
      replace other second (replace key value entries) := by
  induction entries with
  | nil => rfl
  | cons e rest ih => grind [replace]

theorem replace_insert_self (key : String) (first second : α) {entries : List (String × α)}
    (h : key ∉ keys entries) :
    replace key second (insert key first entries) = insert key second entries := by
  induction entries with
  | nil => simp [insert, replace]
  | cons e rest ih => grind [replace, insert, keys_cons]

theorem replace_insert_comm {key other : String} (h : key ≠ other) (value second : α)
    (entries : List (String × α)) :
    replace key value (insert other second entries) =
      insert other second (replace key value entries) := by
  induction entries with
  | nil => simp [insert, replace, Ne.symm h]
  | cons e rest ih => grind [replace, insert]

theorem insert_insert_comm {key other : String} (h : key ≠ other) (value second : α)
    (entries : List (String × α)) :
    insert key value (insert other second entries) =
      insert other second (insert key value entries) := by
  induction entries with
  | nil => grind [insert]
  | cons e rest ih => grind [insert]

/-- Under the key stands the value that was put, and the others are as before. -/
theorem get?_put (key other : String) (value : α) (entries : List (String × α)) :
    get? other (put key value entries) =
      if other = key then some value else get? other entries := by
  unfold put
  split
  · next h =>
    rw [get?_replace]
    obtain ⟨old, hold⟩ := Option.isSome_iff_exists.mp h
    simp [hold]
  · exact get?_insert key other value entries

@[simp] theorem has_put (key other : String) (value : α) (entries : List (String × α)) :
    has other (put key value entries) = (other = key || has other entries) := by
  unfold has
  rw [get?_put]
  split <;> simp [*]

/-- Of two puts under one key the later counts. -/
theorem put_put_self (key : String) (first second : α) (entries : List (String × α)) :
    put key second (put key first entries) = put key second entries := by
  have hhas : has key (put key first entries) = true := by simp
  rw [put, if_pos hhas]
  unfold put
  split
  · exact replace_replace_self key first second entries
  · next h => exact replace_insert_self key first second (fun hk => h (has_iff_mem_keys.mpr hk))

/-- Puts under different keys commute. -/
theorem put_comm {key other : String} (h : key ≠ other) (value second : α)
    (entries : List (String × α)) :
    put key value (put other second entries) = put other second (put key value entries) := by
  have hkey : has key (put other second entries) = has key entries := by simp [h]
  have hother : has other (put key value entries) = has other entries := by simp [Ne.symm h]
  rw [put, hkey, put.eq_1 other second (put key value entries), hother]
  unfold put
  split <;> split
  · exact replace_replace_comm h value second entries
  · exact replace_insert_comm h value second entries
  · exact (replace_insert_comm (Ne.symm h) second value entries).symm
  · exact insert_insert_comm h value second entries

/-- Putting back what is there changes nothing. -/
theorem put_get? {key : String} {value : α} {entries : List (String × α)}
    (h : get? key entries = some value) : put key value entries = entries := by
  have hhas : has key entries = true := by simp [has, h]
  rw [put, if_pos hhas, replace_get? h]

theorem Ordered.replace {entries : List (String × α)} (h : Ordered entries) (key : String)
    (value : α) : Ordered (replace key value entries) := by
  have hkeys : (keys (Keyed.replace key value entries)).Pairwise (· < ·) := by
    rw [keys_replace]
    exact List.pairwise_map.mpr h
  exact List.pairwise_map.mp hkeys

/-- Among ordered entries a put is an insertion. -/
theorem Ordered.put_eq_insert {entries : List (String × α)} (h : Ordered entries) (key : String)
    (value : α) : put key value entries = Keyed.insert key value entries := by
  unfold put
  split
  · next hhas =>
    -- both lists are ordered, so it is enough to look up every key
    apply (h.replace key value).ext (h.insert key value)
    intro other
    have hput := get?_put key other value entries
    rw [put, if_pos hhas] at hput
    rw [hput, get?_insert]
  · rfl

end Testbed.Keyed

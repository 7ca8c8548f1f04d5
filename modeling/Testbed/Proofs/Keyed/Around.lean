import Testbed.Proofs.Keyed.Order

/-!
# Entries around a key

An entry stands between others that do not have its key, and what is done under the key leaves these
alone: it can be split off (`Ordered.split`), and a list of entries can be built from the front
(`Before`). Which keys there are, and whether they are in order, is settled by the keys alone.
-/

namespace Testbed.Keyed

variable {α β : Type}

/-! ## §1 Keys -/

/-- Which keys there are does not depend on the values. -/
theorem has_eq_of_keys_eq {entries : List (String × α)} {others : List (String × β)}
    (h : keys entries = keys others) (key : String) : has key entries = has key others := by
  rw [Bool.eq_iff_iff, has_iff_mem_keys, has_iff_mem_keys, h]

theorem ordered_iff_keys {entries : List (String × α)} :
    Ordered entries ↔ (keys entries).Pairwise (· < ·) :=
  List.pairwise_map.symm

/-! ## §2 One entry and those around it -/

section

variable {key : String} {before : List (String × α)}

theorem get?_append_cons (h : key ∉ keys before) (value : α) (after : List (String × α)) :
    get? key (before ++ (key, value) :: after) = some value := by
  induction before with
  | nil => simp [get?]
  | cons e rest ih =>
    obtain ⟨hne, hrest⟩ : key ≠ e.1 ∧ key ∉ keys rest := by simpa using h
    simp [get?, hne.symm, ih hrest]

theorem replace_append_cons (h : key ∉ keys before) (value other : α)
    (after : List (String × α)) :
    replace key other (before ++ (key, value) :: after) = before ++ (key, other) :: after := by
  induction before with
  | nil => simp [replace]
  | cons e rest ih =>
    obtain ⟨hne, hrest⟩ : key ≠ e.1 ∧ key ∉ keys rest := by simpa using h
    simp [replace, hne.symm, ih hrest]

theorem put_append_cons (h : key ∉ keys before) (value other : α) (after : List (String × α)) :
    put key other (before ++ (key, value) :: after) = before ++ (key, other) :: after := by
  have hhas : has key (before ++ (key, value) :: after) = true := by
    simp [has, get?_append_cons h]
  rw [put, if_pos hhas, replace_append_cons h]

end

/-- An entry of ordered entries, with those around it that stay when another value is inserted. -/
theorem Ordered.split {key : String} {x : α} {entries : List (String × α)} (h : Ordered entries)
    (hget : get? key entries = some x) :
    ∃ before after, entries = before ++ (key, x) :: after ∧ key ∉ keys before ∧
      ∀ y, Keyed.insert key y entries = before ++ (key, y) :: after := by
  induction entries with
  | nil => simp [get?] at hget
  | cons e rest ih =>
    obtain ⟨k, v⟩ := e
    obtain ⟨hlt, hrest⟩ := ordered_cons.mp h
    by_cases hk : k = key
    · subst hk
      obtain rfl : v = x := by simpa [get?] using hget
      exact ⟨[], rest, rfl, by simp, fun y => by simp [Keyed.insert]⟩
    · have hinside : get? key rest = some x := by simpa [get?, hk] using hget
      obtain ⟨before, after, rfl, hbefore, hinsert⟩ := ih hrest hinside
      have hkey : k < key := hlt (key, x) (by simp)
      refine ⟨(k, v) :: before, after, rfl, by simpa [Ne.symm hk] using hbefore, ?_⟩
      intro y
      simp [Keyed.insert, Ne.symm hk, hkey.not_gt, hinsert]

/-- Inserting under a key that is there leaves the keys. -/
theorem Ordered.keys_insert {key : String} {x : α} {entries : List (String × α)}
    (h : Ordered entries) (hget : get? key entries = some x) (y : α) :
    keys (Keyed.insert key y entries) = keys entries := by
  obtain ⟨before, after, rfl, -, hinsert⟩ := h.split hget
  rw [hinsert]
  simp [keys]

/-! ## §3 Entries before others -/

/-- Whether all keys of some entries come before all keys of others. -/
def Before (entries : List (String × α)) (others : List (String × β)) : Prop :=
  ∀ e ∈ entries, ∀ f ∈ others, e.1 < f.1

theorem before_nil (others : List (String × β)) : Before ([] : List (String × α)) others := by
  simp [Before]

/-- The first of the others joins the entries in front. -/
theorem Before.append {entries : List (String × α)} {key : String} {x : β}
    {others : List (String × β)} (h : Before entries ((key, x) :: others))
    (hothers : Ordered ((key, x) :: others)) (value : α) :
    Before (entries ++ [(key, value)]) others := by
  intro e he f hf
  rcases List.mem_append.mp he with he | he
  · exact h e he f (List.mem_cons_of_mem _ hf)
  · rw [List.mem_singleton.mp he]
    exact (ordered_cons.mp hothers).1 f hf

/-- Inserting a key behind all others appends it. -/
theorem Before.insert {entries : List (String × α)} {key : String} {x : β}
    {others : List (String × β)} (h : Before entries ((key, x) :: others)) (value : α) :
    Keyed.insert key value entries = entries ++ [(key, value)] := by
  induction entries with
  | nil => rfl
  | cons e rest ih =>
    have hlt : e.1 < key := h e List.mem_cons_self _ List.mem_cons_self
    have hrest : Before rest ((key, x) :: others) := fun f hf => h f (List.mem_cons_of_mem _ hf)
    simp [Keyed.insert, hlt.ne', hlt.not_gt, ih hrest]

/-- A key behind all others is not among them. -/
theorem Before.get?_eq_none {entries : List (String × α)} {key : String} {x : β}
    {others : List (String × β)} (h : Before entries ((key, x) :: others)) :
    Keyed.get? key entries = none := by
  rw [get?_eq_none_iff]
  intro hmem
  obtain ⟨e, he, heq⟩ := List.mem_map.mp hmem
  exact (h e he _ List.mem_cons_self).ne heq

end Testbed.Keyed

/-!
# Entries under keys

Association lists whose keys are texts. `insert` keeps the entries in the order of their keys,
which is the order of their UTF-8 bytes, and replaces an entry that has the key already; so two
lists built by `insert` with the same contents are the same list.
-/

namespace Testbed.Keyed

variable {α β : Type}

/-- The first value under a key. -/
def get? (key : String) : List (String × α) → Option α
  | [] => none
  | (k, v) :: rest => if k = key then some v else get? key rest

/-- The entries with `value` under `key`, in place of an earlier value. -/
def insert (key : String) (value : α) : List (String × α) → List (String × α)
  | [] => [(key, value)]
  | (k, v) :: rest =>
    if key = k then (key, value) :: rest
    else if key < k then (key, value) :: (k, v) :: rest
    else (k, v) :: insert key value rest

/-- Whether there is an entry under a key. -/
def has (key : String) (entries : List (String × α)) : Bool :=
  (get? key entries).isSome

/-- The entries inserted one after the other: of two with one key the later counts. -/
def ofList (entries : List (String × α)) : List (String × α) :=
  entries.foldl (fun acc (k, v) => insert k v acc) []

/-- Both lists' entries; where both have a key, the second list's. -/
def union (first second : List (String × α)) : List (String × α) :=
  second.foldl (fun acc (k, v) => insert k v acc) first

/-- What was inserted is found. -/
@[simp] theorem get?_insert_self (key : String) (value : α) (entries : List (String × α)) :
    get? key (insert key value entries) = some value := by
  induction entries with
  | nil => simp [insert, get?]
  | cons e rest ih =>
    obtain ⟨k, v⟩ := e
    unfold insert
    split
    · simp [get?]
    · rename_i hk
      split
      · simp [get?]
      · simp [get?, Ne.symm hk, ih]

/-- An insertion changes no other key. -/
theorem get?_insert_of_ne {key other : String} (h : other ≠ key) (value : α)
    (entries : List (String × α)) :
    get? other (insert key value entries) = get? other entries := by
  induction entries with
  | nil => simp [insert, get?, Ne.symm h]
  | cons e rest ih =>
    obtain ⟨k, v⟩ := e
    unfold insert
    split
    · rename_i hk
      subst hk
      simp [get?, Ne.symm h]
    · split
      · simp [get?, Ne.symm h]
      · simp only [get?, ih]

end Testbed.Keyed

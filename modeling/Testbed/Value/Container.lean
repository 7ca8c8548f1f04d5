import Testbed.Value.Basic
import Testbed.Error

/-!
# Editing in place

Lists and maps as places to edit. An edit reports the value as it stands afterwards, together
with the fault that stopped it, if any; so what a failed edit has left behind is part of its
answer.
-/

namespace Testbed

/-- What an edit leaves behind: the value afterwards, and the fault if it failed. -/
structure After (ε α : Type) where
  fault : Option ε
  value : α

namespace After

variable {ε α β : Type}

/-- A finished edit. -/
def done (value : α) : After ε α := ⟨none, value⟩

/-- An edit that failed and changed nothing. -/
def failed (fault : ε) (value : α) : After ε α := ⟨some fault, value⟩

/-- The value of a finished edit, or the fault of one that failed. -/
def result (a : After ε α) : Except ε α :=
  match a.fault with
  | none => .ok a.value
  | some fault => .error fault

@[simp] theorem result_done (value : α) : (done value : After ε α).result = .ok value := rfl

@[simp] theorem result_failed (fault : ε) (value : α) :
    (failed fault value).result = .error fault := rfl

/-- An edit that stores what there is, or fails with nothing to store. -/
@[simp] theorem result_elim (made : Option α) (fault : ε) (value : α) :
    (made.elim (failed fault value) done).result = made.elim (.error fault) .ok := by
  cases made <;> rfl

/-- The edit seen from what holds the value. -/
def map (f : α → β) (a : After ε α) : After ε β := ⟨a.fault, f a.value⟩

@[simp] theorem map_fault (f : α → β) (a : After ε α) : (a.map f).fault = a.fault := rfl

@[simp] theorem map_value (f : α → β) (a : After ε α) : (a.map f).value = f a.value := rfl

end After

/-- An edit of a value. -/
abbrev Edit := Value → After Cause Value

namespace Value

/-! ## §1 Maps -/

/-- Edits the value under a key that is there. -/
def editKey (key : String) (edit : Edit) :
    List (String × Value) → After Cause (List (String × Value))
  | [] => .failed (.keyNotFound key) []
  | (k, v) :: rest =>
    if k = key then (edit v).map fun v => (k, v) :: rest
    else (editKey key edit rest).map ((k, v) :: ·)

/-- Edits the value under a key. A value that is not there is made from the zero value of the
    elements, and only put in if the edit succeeds. -/
def setEntry (element : Shape) (key : String) (edit : Edit) (entries : List (String × Value)) :
    After Cause (List (String × Value)) :=
  if Keyed.has key entries then editKey key edit entries
  else
    let made := edit element.zero
    match made.fault with
    | none => .done (Keyed.insert key made.value entries)
    | some fault => .failed fault entries

/-- The entries with a zero value under a key that was not there. -/
def withEntry (element : Shape) (key : String) (entries : List (String × Value)) :
    List (String × Value) :=
  if Keyed.has key entries then entries else Keyed.insert key element.zero entries

/-! ## §2 Lists -/

/-- Edits the item at an index, of a list that is `length` long. -/
def editItem (index length : Nat) (edit : Edit) : Nat → List Value → After Cause (List Value)
  | _, [] => .failed (.indexOutOfRange index length) []
  | 0, v :: rest => (edit v).map (· :: rest)
  | i + 1, v :: rest => (editItem index length edit i rest).map (v :: ·)

/-- Puts a zero value behind the items and edits it there; it stays when the edit fails. -/
def pushEdited (element : Shape) (edit : Edit) (items : List Value) : After Cause (List Value) :=
  (edit element.zero).map fun v => items ++ [v]

/-- How many items or entries there are. -/
def count? : Value → Option Nat
  | list _ items => some items.length
  | map _ entries => some entries.length
  | _ => none

/-- Without items or entries. -/
def clear? : Value → Option Value
  | list e _ => some (list e [])
  | map e _ => some (map e [])
  | _ => none

end Value

end Testbed

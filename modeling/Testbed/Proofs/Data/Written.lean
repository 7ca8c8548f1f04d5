import Testbed.Format.Json
import Testbed.Proofs.Data.Route

/-!
# Data as JSON

JSON has no infinities and nothing that is not a number: a float that is not finite is written as
null. `written` is the data that a JSON text shows, and it is written as the same text
(`render_written`). It is entered by the same routes as the data itself, so what is put into the
data is put at the same route of what is shown.
-/

namespace Testbed

namespace Data

mutual
/-- What JSON shows of data: a float that is not finite is null there. -/
def written : Data → Data
  | null => null
  | bool b => bool b
  | int n => int n
  | float x => if x.isFinite then float x else null
  | text s => text s
  | list items => list (writtenItems items)
  | map entries => map (writtenEntries entries)
/-- What JSON shows of the items of a list. -/
def writtenItems : List Data → List Data
  | [] => []
  | d :: rest => written d :: writtenItems rest
/-- What JSON shows of the entries of a map. -/
def writtenEntries : List (String × Data) → List (String × Data)
  | [] => []
  | (name, d) :: rest => (name, written d) :: writtenEntries rest
end

theorem writtenItems_eq_map (items : List Data) : writtenItems items = items.map written := by
  induction items with
  | nil => rfl
  | cons d rest ih => rw [writtenItems, ih, List.map_cons]

theorem writtenEntries_eq_map (entries : List (String × Data)) :
    writtenEntries entries = entries.map fun e => (e.1, e.2.written) := by
  induction entries with
  | nil => rfl
  | cons e rest ih => rw [writtenEntries, ih, List.map_cons]

/-! ## §1 Routes -/

/-- What a step leads to in written data is written. -/
theorem child?_written (s : Step) (d : Data) :
    child? s d.written = (child? s d).map written := by
  cases d with
  | map entries =>
    cases s with
    | key name =>
      rw [written, child?, writtenEntries_eq_map, Keyed.get?_map]
      rfl
    | index i => rfl
  | list items =>
    cases s with
    | key name => rfl
    | index i =>
      rw [written, child?, writtenItems_eq_map, List.getElem?_map]
      rfl
  | float x =>
    -- neither a float nor null has anything inside
    simp only [written]
    split <;> cases s <;> rfl
  | _ => cases s <;> rfl

/-- Data is written with what is set in it. -/
theorem setChild_written (s : Step) (x d : Data) :
    (setChild s x d).written = setChild s x.written d.written := by
  cases d with
  | map entries =>
    cases s with
    | key name => simp [setChild, written, writtenEntries_eq_map, Keyed.map_insert]
    | index i => rfl
  | list items =>
    cases s with
    | key name => rfl
    | index i => simp [setChild, written, writtenItems_eq_map, List.map_set]
  | float x =>
    simp only [setChild, written]
    split <;> rfl
  | _ => rfl

/-- What is put into data is put at the same route of what JSON shows of it. -/
theorem put_written (r : Route) (x d : Data) :
    (put r x d).written = put r x.written d.written := by
  induction r generalizing d with
  | nil => rfl
  | cons s r ih =>
    have hinside : ((child? s d).getD null).written = (child? s d.written).getD null := by
      rw [child?_written]
      cases child? s d <;> rfl
    rw [put, put, setChild_written, ih, hinside]

end Data

/-! ## §2 The text -/

namespace Json

open Data

mutual
/-- JSON writes of data what it shows of them. -/
theorem render_written : (d : Data) → render d.written = render d
  | .null => rfl
  | .bool _ => rfl
  | .int _ => rfl
  | .float x => by cases x <;> rfl
  | .text _ => rfl
  | .list items => by rw [written, render, renderItems_written items, render]
  | .map entries => by rw [written, render, renderMembers_written entries, render]
theorem renderItems_written : (items : List Data) →
    renderItems (writtenItems items) = renderItems items
  | [] => rfl
  | d :: rest => by
    rw [writtenItems, renderItems, render_written d, renderItems_written rest, renderItems]
theorem renderMembers_written : (entries : List (String × Data)) →
    renderMembers (writtenEntries entries) = renderMembers entries
  | [] => rfl
  | (name, d) :: rest => by
    rw [writtenEntries, renderMembers, render_written d, renderMembers_written rest, renderMembers]
end

end Json

end Testbed

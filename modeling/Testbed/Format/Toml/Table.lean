import Testbed.Data

/-!
# Tables of TOML

Where keys and headers put values. A table is written in one place: under a header of its own, or
by keys with points, and what is written is not written again. A header may name tables that have
none; such a table is *implicit*, and may still get its header. A table that keys with points have
made is *dotted*, and gets no header.
-/

namespace Testbed.Toml

mutual
/-- What stands under a key: a finished value, a table, or a list of tables. -/
inductive Item where
  | value (d : Data)
  | table (t : Table)
  | tables (earlier : List Table) (last : Table)
/-- A table under construction. -/
inductive Table where
  | mk (implicit dotted : Bool) (entries : List (String × Item))
end

namespace Table

/-- Whether no header named a table itself. -/
def implicit : Table → Bool
  | mk implicit _ _ => implicit

/-- Whether keys with points made a table. -/
def dotted : Table → Bool
  | mk _ dotted _ => dotted

/-- The entries of a table. -/
def entries : Table → List (String × Item)
  | mk _ _ entries => entries

/-- A table without entries that has its header. -/
def empty : Table := mk false false []

/-- A table with an entry put in. -/
def set (key : String) (item : Item) (t : Table) : Table :=
  mk t.implicit t.dotted (Keyed.insert key item t.entries)

/-- Changes the table that a path leads to; of a list of tables, the last one. Tables that are not
    there are made. Keys with points, for which `byKey` holds, do not lead into a table that has its
    header. -/
def change? (byKey : Bool) : List String → (Table → Option Table) → Table → Option Table
  | [], f, t => f t
  | key :: path, f, t =>
    match Keyed.get? key t.entries with
    | none => (change? byKey path f (mk true byKey [])).map fun child => t.set key (.table child)
    | some (.table child) =>
      -- a table with a header is complete: keys from elsewhere may not add to it
      if byKey ∧ !child.implicit then none
      else (change? byKey path f child).map fun child => t.set key (.table child)
    | some (.tables earlier last) =>
      (change? byKey path f last).map fun last => t.set key (.tables earlier last)
    | some (.value _) => none

/-- The path to the table that a key with points belongs to, and its last part. -/
def splitLast : List String → Option (List String × String)
  | [] => none
  | [key] => some ([], key)
  | part :: parts => (splitLast parts).map fun (path, key) => (part :: path, key)

/-- Puts a value under a key. The table that it is put into is a dotted one exactly where the key
    has points, and has no such entry yet. -/
def assign? (parts : List String) (d : Data) (t : Table) : Option Table := do
  let (path, key) ← splitLast parts
  t.change? true path fun inner =>
    -- a plain key belongs to a table of its own, a key with points to a dotted one
    if inner.dotted = path.isEmpty ∨ Keyed.has key inner.entries then none
    else some (inner.set key (.value d))

/-- Begins the table of a header. -/
def openTable? (parts : List String) (t : Table) : Option Table := do
  let (path, key) ← splitLast parts
  t.change? false path fun outer =>
    match Keyed.get? key outer.entries with
    | none => some (outer.set key (.table empty))
    | some (.table inner) =>
      if inner.implicit ∧ !inner.dotted then
        some (outer.set key (.table (mk false false inner.entries)))
      else none
    | some _ => none

/-- Begins the next table of the list of tables of a header. -/
def openNext? (parts : List String) (t : Table) : Option Table := do
  let (path, key) ← splitLast parts
  t.change? false path fun outer =>
    match Keyed.get? key outer.entries with
    | none => some (outer.set key (.tables [] empty))
    | some (.tables earlier last) => some (outer.set key (.tables (earlier ++ [last]) empty))
    | some _ => none

end Table

mutual
/-- What stands under a key, as data. -/
def Item.data : Item → Data
  | .value d => d
  | .table t => t.data
  | .tables earlier last => .list (tablesData earlier ++ [last.data])
/-- A table as data. -/
def Table.data : Table → Data
  | .mk _ _ entries => .map (entriesData entries)
/-- Tables as data. -/
def tablesData : List Table → List Data
  | [] => []
  | t :: ts => t.data :: tablesData ts
/-- Entries as data. -/
def entriesData : List (String × Item) → List (String × Data)
  | [] => []
  | (key, item) :: es => (key, item.data) :: entriesData es
end

end Testbed.Toml

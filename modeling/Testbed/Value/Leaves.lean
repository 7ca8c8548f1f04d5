import Testbed.Format.Json

/-!
# Leaves

The scalar leaves of data, each under the route that leads to it: `servers[0].port`. Empty lists
and maps contribute nothing. A text leaf is listed as it is and any other as JSON text.
-/

namespace Testbed

/-- Leaves by route, in the order of the data. -/
structure Listing where
  entries : List (String × String)
deriving DecidableEq, Repr

namespace Data

/-- The route to a key of a map. -/
def keyRoute (route key : String) : String :=
  if route = "" then key else route ++ "." ++ key

/-- The route to an index of a list. -/
def indexRoute (route : String) (index : Nat) : String :=
  s!"{route}[{index}]"

mutual
/-- The leaves below a route. -/
def leavesAt (route : String) : Data → List (String × String)
  | map entries => entryLeaves route entries
  | list items => itemLeaves route 0 items
  | text s => [(route, s)]
  | null => [(route, Json.render null)]
  | bool b => [(route, Json.render (bool b))]
  | int n => [(route, Json.render (int n))]
  | float x => [(route, Json.render (float x))]
/-- The leaves of a map's entries. -/
def entryLeaves (route : String) : List (String × Data) → List (String × String)
  | [] => []
  | (key, d) :: rest => leavesAt (keyRoute route key) d ++ entryLeaves route rest
/-- The leaves of a list's items, the first of which has the given index. -/
def itemLeaves (route : String) : Nat → List Data → List (String × String)
  | _, [] => []
  | index, d :: rest => leavesAt (indexRoute route index) d ++ itemLeaves route (index + 1) rest
end

/-- All leaves of some data. -/
def leaves (d : Data) : Listing := ⟨leavesAt "" d⟩

end Data

namespace Listing

/-- The text of the first leaf with a route. -/
def get? (l : Listing) (route : String) : Option String :=
  Keyed.get? route l.entries

/-- The listing as text, a line for each leaf. -/
def text (l : Listing) : String :=
  "\n".intercalate (l.entries.map fun (route, value) => route ++ " = " ++ value)

end Listing

end Testbed

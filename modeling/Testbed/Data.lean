import Testbed.Keyed
import Testbed.Number.Shortest

/-!
# Untyped data

What a document holds before it is bound to a rig: null, truth values, integers, floats, texts,
lists and maps. A map's entries stand in the order of their keys.
-/

namespace Testbed

open Number

/-- Untyped data. -/
inductive Data where
  | null
  | bool (value : Bool)
  | int (value : Int)
  | float (value : Binary)
  | text (value : String)
  | list (items : List Data)
  | map (entries : List (String × Data))
deriving Inhabited, Repr

namespace Data

/-- The name that messages give to the kind of some data. -/
def kind : Data → String
  | null => "null"
  | bool _ => "bool"
  | int _ => "int"
  | float _ => "float"
  | text _ => "string"
  | list _ => "array"
  | map _ => "map"

/-- Whether this is null. -/
def isNull : Data → Bool
  | null => true
  | _ => false

/-- The integers that data can hold; every other whole number is a float. -/
def isInteger (n : Int) : Bool :=
  -(2 ^ (63 : Nat)) ≤ n && n < 2 ^ (64 : Nat)

end Data

end Testbed

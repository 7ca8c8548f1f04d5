import Testbed.Keyed
import Testbed.Text.Pieces

/-!
# Field directives

Every field of a record carries a tag such as `timeout,default=600000` or
`sandbox,enum=local|docker,default=local`. A tag is cut at its commas; each segment assigns a
value to a directive, and the first segment, when it has no `=`, is the field's name in documents.

- `Directives.read` reads a tag. It fails exactly at a segment whose directive does not exist.
- The accessors say what a directive asks for.
-/

namespace Testbed

/-- The directives of a field: their raw values by name. -/
structure Directives where
  values : List (String × String)
deriving DecidableEq, Repr

namespace Directives

/-- The names of the directives. -/
def known : List String :=
  ["name", "default", "factory", "enum", "keys", "loadable", "path", "string"]

/-- The assignment that a segment makes; a name alone is assigned `true`. -/
def assignment (segment : String) : String × String :=
  (Text.cutFirst '=' segment).getD (segment, "true")

/-- Makes the assignments of segments, the later ones counting. -/
def assign : List (String × String) → List String → Except String (List (String × String))
  | values, [] => .ok values
  | values, segment :: segments =>
    let (key, value) := assignment segment
    if key ∈ known then assign (Keyed.insert key value values) segments else .error key

/-- Reads a tag. The error is the first name that is no directive. -/
def read (tag : String) : Except String Directives :=
  Directives.mk <$>
    match Text.pieces ',' tag with
    | [] => .ok []
    | first :: segments =>
      if '=' ∈ first.toList then assign [] (first :: segments)
      else if first = "" then assign [] segments
      else assign [("name", first)] segments

/-- The raw value of a directive. -/
def get? (d : Directives) (name : String) : Option String :=
  Keyed.get? name d.values

/-- The field's name in documents, where it is not the field's own. -/
def name? (d : Directives) : Option String := d.get? "name"

/-- What an absent field holds. -/
def default? (d : Directives) : Option String := d.get? "default"

/-- The factory that fills the field. -/
def factory? (d : Directives) : Option String := d.get? "factory"

/-- The field inside the field that a bare text is meant for. -/
def string? (d : Directives) : Option String := d.get? "string"

/-- The texts allowed. -/
def allowed? (d : Directives) : Option (List String) :=
  (d.get? "enum").map (Text.pieces '|')

/-- The keys of which one must be present. -/
def keys? (d : Directives) : Option (List String) :=
  (d.get? "keys").map (Text.pieces '|')

/-- Whether a text is a pattern for documents to load. -/
def isLoadable (d : Directives) : Bool := d.get? "loadable" = some "true"

/-- Whether the text is a path that must exist. -/
def isPath (d : Directives) : Bool := d.get? "path" = some "true"

end Directives

end Testbed

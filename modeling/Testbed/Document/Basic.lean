import Testbed.Error
import Testbed.Format.Json
import Testbed.Format.Toml
import Testbed.Format.Yaml

/-!
# Documents

A document is a map of data with the path that it was read from. Its format follows from the
extension of its path, its top level must be a map, and an empty document is an empty map.
-/

namespace Testbed

/-- A document: where it was read from, and the entries of its map. -/
structure Document where
  path : Path
  entries : List (String × Data)
deriving Inhabited, Repr

/-- The formats of documents. -/
inductive Format where
  | json
  | yaml
  | toml
deriving DecidableEq, Repr

namespace Format

/-- The format with an extension. -/
def ofExtension? : String → Option Format
  | "json" => some json
  | "yaml" => some yaml
  | "yml" => some yaml
  | "toml" => some toml
  | _ => none

/-- The format of the document at a path. -/
def ofPath? (p : Path) : Option Format :=
  p.extension?.bind ofExtension?

/-- Reads a text in a format. -/
def read? (f : Format) (cs : List Char) : Option Data :=
  match f with
  | json => Json.read? Json.documentDepth cs
  | yaml => Yaml.read? cs
  | toml => Toml.read? cs

end Format

namespace Document

/-- The name of a document, by which a map holds it: its file name without the extension. -/
def name (d : Document) : String :=
  d.path.stem?.getD ""

/-- The entries of a document's data. -/
def entriesOf (data : Data) : Except LoadFault (List (String × Data)) :=
  match data with
  | .map entries => .ok entries
  | .null => .ok []
  | other => .error (.notMap other.kind)

/-- What the file at a path holds as a document. -/
def parse (format : Format) (bytes : List UInt8) : Except LoadFault (List (String × Data)) :=
  match Text.decodeUtf8 bytes with
  | .error fault => .error (.notText fault)
  | .ok cs =>
    match format.read? cs with
    | some data => entriesOf data
    | none => .error .malformed

/-- Loads the document at a path. -/
def load (files : FileSystem) (path : Path) : Except Cause Document :=
  let outcome : Except LoadFault (List (String × Data)) :=
    match Format.ofPath? path with
    | none => .error .unsupportedExtension
    | some format =>
      match files.read path with
      | .error fault => .error (.unreadable fault)
      | .ok bytes => parse format bytes
  match outcome with
  | .ok entries => .ok ⟨path, entries⟩
  | .error fault => .error (.load path fault)

/-- The documents whose paths match a pattern, read from a directory, in the order of their
    paths. -/
def loadMatching (files : FileSystem) (directory : Path) (pattern : String) :
    Except Cause (List Document) :=
  let full := directory.join pattern
  match files.glob full with
  | .error fault => .error (.load full (.unreadable fault))
  | .ok paths => (Path.sorted paths).mapM (load files)

end Document

end Testbed

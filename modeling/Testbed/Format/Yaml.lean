import Testbed.Format.Yaml.Core
import Testbed.Text.Blank
import Testbed.Text.Pieces

/-!
# YAML

Reading a YAML text as data. A text of which every line is blank or a comment is null.
-/

namespace Testbed.Yaml

/-- Whether a line is blank, or a comment. -/
def isIdleLine (cs : List Char) : Bool :=
  match Text.trimFront cs with
  | [] => true
  | c :: _ => c = '#'

/-- Whether a text says nothing. -/
def isIdle (cs : List Char) : Bool :=
  (Text.piecesOf '\n' cs).all isIdleLine

/-- Reads a text of one document. -/
def read? (cs : List Char) : Option Data :=
  if isIdle cs then some .null
  else do
    let tokens ← Token.ofText? cs
    let s ← Stream.ofTokens? tokens
    s.data?

end Testbed.Yaml

import Testbed.Format.Toml.Scalar
import Testbed.Format.Toml.Table

/-!
# TOML

Reading a TOML text as data. A text is a sequence of lines: keys with their values, and headers,
which say into which table the keys after them go.
-/

namespace Testbed.Toml

/-! ## §1 Values -/

/-- How deep arrays and inline tables may be nested. -/
def valueDepth : Nat := 80

mutual
/-- A value, and what follows it; `depth` is how many arrays and inline tables may be opened. -/
def value? : Nat → Nat → List Char → Option (Data × List Char)
  | 0, _, _ => none
  | fuel + 1, depth, cs =>
    match cs, depth with
    | '"' :: _, _ => (text? cs).map fun (text, rest) => (.text (String.ofList text), rest)
    | '\'' :: _, _ => (text? cs).map fun (text, rest) => (.text (String.ofList text), rest)
    | '[' :: rest, depth + 1 =>
      (items? fuel depth rest).map fun (items, rest) => (.list items, rest)
    | '\x7b' :: rest, depth + 1 =>
      match skipWhite rest with
      | '\x7d' :: rest => some (.map [], rest)
      | _ => (pairs? fuel depth .empty rest).map fun (t, rest) => (t.data, rest)
    | _, _ => scalar? cs
/-- The items of an array up to its closing bracket; a comma may stand behind the last one. -/
def items? : Nat → Nat → List Char → Option (List Data × List Char)
  | 0, _, _ => none
  | fuel + 1, depth, cs => do
    match ← skipLines? (cs.length + 1) cs with
    | ']' :: rest => some ([], rest)
    | cs => do
      let (d, rest) ← value? fuel depth cs
      match ← skipLines? (rest.length + 1) rest with
      | ',' :: rest => (items? fuel depth rest).map fun (ds, rest) => (d :: ds, rest)
      | ']' :: rest => some ([d], rest)
      | _ => none
/-- The entries of an inline table up to its closing brace, put into `t`. -/
def pairs? : Nat → Nat → Table → List Char → Option (Table × List Char)
  | 0, _, _, _ => none
  | fuel + 1, depth, t, cs => do
    match ← key? cs with
    | (key, '=' :: rest) => do
      let (d, rest) ← value? fuel depth (skipWhite rest)
      let t ← t.assign? key d
      match skipWhite rest with
      | ',' :: rest => pairs? fuel depth t rest
      | '\x7d' :: rest => some (t, rest)
      | _ => none
    | _ => none
end

/-! ## §2 Lines -/

/-- A document that is being read: all its tables, and the header that the next keys come under. -/
structure Progress where
  root : Table
  header : List String

/-- Nothing is read. -/
def Progress.start : Progress := ⟨.empty, []⟩

/-- Reads the line of a key and its value. -/
def keyLine? (p : Progress) (cs : List Char) : Option (Progress × List Char) := do
  match ← key? cs with
  | (key, '=' :: rest) => do
    let (d, rest) ← value? (rest.length + 1) valueDepth (skipWhite rest)
    let rest ← finishLine? rest
    let root ← p.root.change? false p.header (·.assign? key d)
    some (⟨root, p.header⟩, rest)
  | _ => none

/-- Reads the line of a header. -/
def headerLine? (p : Progress) (cs : List Char) : Option (Progress × List Char) := do
  match cs with
  | '[' :: '[' :: cs =>
    match ← key? cs with
    | (header, ']' :: ']' :: rest) => do
      let rest ← finishLine? rest
      some (⟨← p.root.openNext? header, header⟩, rest)
    | _ => none
  | '[' :: cs =>
    match ← key? cs with
    | (header, ']' :: rest) => do
      let rest ← finishLine? rest
      some (⟨← p.root.openTable? header, header⟩, rest)
    | _ => none
  | _ => none

/-- Reads the lines that are left. -/
def document? : Nat → Progress → List Char → Option Progress
  | 0, _, _ => none
  | fuel + 1, p, cs => do
    match ← skipLines? (cs.length + 1) cs with
    | [] => some p
    | cs => do
      let (p, rest) ← if cs.head? = some '[' then headerLine? p cs else keyLine? p cs
      document? fuel p rest

/-- Reads a text. A mark of the byte order may stand in front. -/
def read? (cs : List Char) : Option Data := do
  let cs := match cs with
    | '\ufeff' :: cs => cs
    | cs => cs
  let p ← document? (cs.length + 1) .start cs
  some p.root.data

end Testbed.Toml

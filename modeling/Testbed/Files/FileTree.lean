import Testbed.Files.FileSystem

/-!
# Files below a working directory

A file tree holds files at relative paths; the directories are the beginnings of these paths.
Paths are followed from the working directory, one segment after the other, and every segment but
the first must stand below a directory.

A pattern is cut at its slashes. A part without special characters is looked up, any other part
is compared with the names in the directory, and `**` stands for any directories in between.
-/

namespace Testbed

/-- Files by the names that lead to them from the working directory. -/
structure FileTree where
  files : List (List String × List UInt8)

/-- What stands at a place of the tree. -/
inductive FileTree.Entry where
  | directory
  | file (contents : List UInt8)

namespace FileTree

/-! ## §1 Following paths -/

/-- The names that a relative path leads along. -/
def names (p : Path) : List String :=
  p.components.filterMap fun
    | .name s => some s
    | _ => none

/-- The files at relative paths. -/
def ofFiles (files : List (Path × List UInt8)) : FileTree :=
  ⟨files.map fun (p, contents) => (names p, contents)⟩

/-- What stands at the end of some names. -/
def entry? (tree : FileTree) (here : List String) : Option Entry :=
  match tree.files.find? (·.1 = here) with
  | some (_, contents) => some (.file contents)
  | none =>
    if here = [] ∨ tree.files.any (fun (names, _) => here.isPrefixOf names) then some .directory
    else none

/-- Follows segments from a place that is a directory or a file. -/
def follow (tree : FileTree) : List String → List String → Except FileFault (List String)
  | here, [] => .ok here
  | here, segment :: rest =>
    match tree.entry? here with
    | some .directory =>
      if segment = "" ∨ segment = "." then follow tree here rest
      else if segment = ".." then follow tree here.dropLast rest
      else
        let next := here ++ [segment]
        if (tree.entry? next).isSome then follow tree next rest else .error .noEntry
    | some (.file _) => .error .notDirectory
    | none => .error .noEntry

/-- The place that a path leads to. Nothing is known of what lies outside the tree. -/
def place (tree : FileTree) (p : Path) : Except FileFault (List String) :=
  if p = "" ∨ p.isAbsolute then .error .noEntry else tree.follow [] p.segments

/-- What a path leads to. -/
def lookUp (tree : FileTree) (p : Path) : Except FileFault Entry := do
  let here ← tree.place p
  match tree.entry? here with
  | some entry => .ok entry
  | none => .error .noEntry

/-- Whether a path leads somewhere. -/
def isPresent (tree : FileTree) (p : Path) : Bool :=
  (tree.lookUp p).isOk

/-- Whether a path leads to a directory. -/
def isDirectory (tree : FileTree) (p : Path) : Bool :=
  match tree.lookUp p with
  | .ok .directory => true
  | _ => false

/-- The contents of the file that a path leads to. -/
def read (tree : FileTree) (p : Path) : Except FileFault (List UInt8) := do
  match ← tree.lookUp p with
  | .file contents => .ok contents
  | .directory => .error .isDirectory

/-- The names in a directory. -/
def children (tree : FileTree) (p : Path) : List String :=
  match tree.place p with
  | .ok here =>
    (tree.files.filterMap fun (names, _) =>
      if here.isPrefixOf names then (names.drop here.length).head? else none).eraseDups
  | .error _ => []

/-! ## §2 Expanding patterns -/

/-- A path below another; below the working directory it is the name alone. -/
def below (p : Path) (name : String) : Path :=
  if p.same "." then name else p.join name

/-- Whether a part of a pattern stands for any directories. -/
def isDeep (part : List Glob.Token) : Bool :=
  part.contains .deep

mutual
/-- The paths that match `parts` below `p`. `fuel` bounds the steps down the tree and along the
    parts. -/
def expand (tree : FileTree) (needsDirectory : Bool) : Nat → List (List Glob.Token) → Path →
    List Path
  | 0, _, _ => []
  | _ + 1, [], _ => []
  | fuel + 1, part :: parts, p =>
    match Glob.literal? part with
    | some cs =>
      let name := String.ofList cs
      let next := below p name
      let there := if name = "." ∨ name = ".." then tree.isDirectory p else tree.isPresent next
      if there then proceed tree needsDirectory fuel parts next else []
    | none =>
      if tree.isDirectory p then
        let inside := (tree.children p).flatMap fun name =>
          visit tree needsDirectory fuel (part :: parts) (below p name)
        let special := if part.head? = some (.literal '.') then [".", ".."] else []
        inside ++ (special.filter (Glob.matchesText part)).flatMap fun name =>
          proceed tree needsDirectory fuel parts (p.join name)
      else []
/-- Goes on with the parts after one that `p` has matched. -/
def proceed (tree : FileTree) (needsDirectory : Bool) : Nat → List (List Glob.Token) → Path →
    List Path
  | 0, _, _ => []
  | _ + 1, [], p => if !needsDirectory || tree.isDirectory p then [p] else []
  | fuel + 1, part :: parts, p => expand tree needsDirectory fuel (part :: parts) p
/-- Compares an entry of a directory with `parts`. -/
def visit (tree : FileTree) (needsDirectory : Bool) : Nat → List (List Glob.Token) → Path →
    List Path
  | 0, _, _ => []
  | _ + 1, [], _ => []
  | fuel + 1, part :: parts, p =>
    if isDeep part then
      let parts := parts.dropWhile isDeep
      let further :=
        if tree.isDirectory p then expand tree needsDirectory fuel (part :: parts) p else []
      -- at the end of a pattern only directories count as found
      match parts with
      | [] => if tree.isDirectory p then p :: further else further
      | _ :: _ => further ++ visit tree needsDirectory fuel parts p
    else
      match p.fileName? with
      | some name =>
        if Glob.matchesText part name then proceed tree needsDirectory fuel parts p else []
      | none => []
end

/-- The texts between the slashes of a pattern; a slash at the end ends the last one. -/
def patternParts (pattern : String) : List String :=
  let ss := Text.pieces '/' pattern
  if ss.getLast? = some "" then ss.dropLast else ss

/-- The paths that match a pattern. -/
def glob (tree : FileTree) (pattern : String) : Except FileFault (List Path) := do
  let faulty {α : Type} : Except Glob.Fault α → Except FileFault α
    | .ok x => .ok x
    | .error fault => .error (.badPattern fault)
  let _ ← faulty (Glob.read pattern)
  let parts ← (patternParts pattern).mapM fun part => faulty (Glob.read part)
  if pattern = "" ∨ Path.isAbsolute pattern then .ok []
  else
    let depth := (tree.files.map (·.1.length)).foldl max 0
    let needsDirectory := pattern.toList.getLast? = some '/'
    .ok (expand tree needsDirectory (4 * (depth + parts.length) + 8) parts ".")

/-- Files below a working directory as a file system. -/
def fileSystem (tree : FileTree) : FileSystem :=
  ⟨tree.isPresent, tree.read, tree.glob⟩

end FileTree

end Testbed

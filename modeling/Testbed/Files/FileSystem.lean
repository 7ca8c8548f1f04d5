import Testbed.Files.Path
import Testbed.Files.Glob

/-!
# File systems

What reading a configuration asks of the files around it: whether a path is there, what a file
holds, and which paths match a pattern.

- `FileSystem` is the interface; everything else is written against it.
- `StoredFiles` are files held in memory. A directory is there when a file lies beneath it, and a
  pattern is matched against the path texts as they were stored.
- `FileTree` are files below a working directory. Paths are followed step by step, and a pattern
  is expanded directory by directory.
-/

namespace Testbed

/-- Why a file system could not answer. -/
inductive FileFault where
  | notStored (path : Path)
  | noEntry
  | notDirectory
  | isDirectory
  | badPattern (fault : Glob.Fault)
deriving DecidableEq, Repr

/-- The wording of a fault. -/
def FileFault.message : FileFault → String
  | .notStored path => s!"{path} not found"
  | .noEntry => "No such file or directory (os error 2)"
  | .notDirectory => "Not a directory (os error 20)"
  | .isDirectory => "Is a directory (os error 21)"
  | .badPattern fault => fault.message

/-- The files that a configuration is read from. -/
structure FileSystem where
  isPresent : Path → Bool
  read : Path → Except FileFault (List UInt8)
  glob : String → Except FileFault (List Path)

/-! ## §1 Files in memory -/

/-- Files by path, in the order of the paths. -/
structure StoredFiles where
  files : List (Path × List UInt8)

namespace StoredFiles

/-- No files. -/
def empty : StoredFiles := ⟨[]⟩

/-- The files with `contents` under `path`. A file under the same path is replaced and keeps the
    spelling of its path. -/
def insertInto (path : Path) (contents : List UInt8) :
    List (Path × List UInt8) → List (Path × List UInt8)
  | [] => [(path, contents)]
  | (p, c) :: rest =>
    if p.same path then (p, contents) :: rest
    else if path.le p then (path, contents) :: (p, c) :: rest
    else (p, c) :: insertInto path contents rest

/-- Stores a file. -/
def insert (store : StoredFiles) (path : Path) (contents : List UInt8) : StoredFiles :=
  ⟨insertInto path contents store.files⟩

/-- The contents under a path. -/
def read (store : StoredFiles) (path : Path) : Except FileFault (List UInt8) :=
  match store.files.find? fun (p, _) => p.same path with
  | some (_, contents) => .ok contents
  | none => .error (.notStored path)

/-- Whether a file has the path or lies beneath it. -/
def isPresent (store : StoredFiles) (path : Path) : Bool :=
  store.files.any fun (p, _) => p.startsWith path

/-- The stored paths whose text matches a pattern. -/
def glob (store : StoredFiles) (pattern : String) : Except FileFault (List Path) :=
  match Glob.read pattern with
  | .ok tokens => .ok ((store.files.map (·.1)).filter (Glob.matchesText tokens))
  | .error fault => .error (.badPattern fault)

/-- Stored files as a file system. -/
def fileSystem (store : StoredFiles) : FileSystem :=
  ⟨store.isPresent, store.read, store.glob⟩

end StoredFiles

end Testbed

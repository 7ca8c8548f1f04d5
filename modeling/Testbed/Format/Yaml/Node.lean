import Testbed.Format.Yaml.Token
import Testbed.Keyed

/-!
# Nodes of a YAML text

`Stream.ofTokens?` reads the tokens of a text as the one document that the text may hold. A node
is a scalar, a sequence, a mapping, or an alias of an anchored node. Anchors are numbered by the
names known when they come up, so an anchor whose name is known already takes the number of the
next new name; of two nodes with one number the later counts.
-/

namespace Testbed.Yaml

/-- The nodes of a document. Tags are written in full. -/
inductive Node where
  | alias (number : Nat)
  | scalar (tag : Option String) (plain : Bool) (text : String)
  | sequence (tag : Option String) (items : List Node)
  | mapping (tag : Option String) (entries : List (Node × Node))
deriving Inhabited, Repr

/-- A plain scalar without text, which stands where a node is left out. -/
def Node.empty : Node := .scalar none true ""

/-- A document: its node, and the anchored nodes by their numbers. -/
structure Stream where
  root : Node
  anchored : List (Nat × Node)
deriving Inhabited, Repr

/-! ## §1 The state of reading -/

/-- The anchors so far: the names with their numbers, the anchored nodes that have begun by the
    order in which they began, and those of them that are complete. -/
structure Anchors where
  names : List (String × Nat)
  begun : List Nat
  complete : List (Nat × Node)

namespace Anchors

/-- No anchors. -/
def empty : Anchors := ⟨[], [], []⟩

/-- A node with an anchor begins; also gives its place in the order of beginning. -/
def start (name : String) (a : Anchors) : Nat × Anchors :=
  let number := a.names.length
  (a.begun.length,
    { a with names := Keyed.insert name number a.names, begun := a.begun ++ [number] })

/-- The node that began at a place in the order is complete. -/
def finish (order : Nat) (n : Node) (a : Anchors) : Anchors :=
  { a with complete := (order, n) :: a.complete }

/-- The anchored nodes by their numbers, the last one to begin first. -/
def byNumber (a : Anchors) : List (Nat × Node) :=
  (a.begun.zipIdx.filterMap fun (number, order) =>
    (a.complete.lookup order).map (number, ·)).reverse

end Anchors

/-- What is left of the tokens, and the anchors so far. -/
structure Reading where
  tokens : List Token
  anchors : Anchors

/-- Reading of tokens, which may fail. -/
abbrev Reader := StateT Reading Option

namespace Reader

/-- Fails. -/
def refuse {α : Type} : Reader α := fun _ => none

/-- The next token. -/
def peek : Reader (Option Token) := fun s => some (s.tokens.head?, s)

/-- Goes behind the next token. -/
def drop : Reader Unit := fun s => some ((), { s with tokens := s.tokens.drop 1 })

/-- Goes behind the next token if it is `t`, and says whether it is. -/
def dropIf (t : Token) : Reader Bool := fun s =>
  if s.tokens.head? = some t then some (true, { s with tokens := s.tokens.drop 1 })
  else some (false, s)

/-- Whether the next token is one of some tokens. -/
def atOneOf (ts : List Token) : Reader Bool := fun s =>
  some (s.tokens.head?.any (ts.contains ·), s)

end Reader

/-! ## §2 The properties of a node -/

/-- The beginnings that handles of tags stand for where no directive says anything else. -/
def standardHandles : List (String × String) :=
  [("!", "!"), ("!!", "tag:yaml.org,2002:")]

/-- A tag in full; `none` where its handle is unknown. -/
def Tag.resolve? (handles : List (String × String)) (t : Tag) : Option String :=
  if t.handle = "" then some t.suffix
  else (Keyed.get? t.handle handles).map (· ++ t.suffix)

/-- The anchor and the tag of a node, in either order. -/
def properties : Reader (Option String × Option Tag) := do
  match ← Reader.peek with
  | some (.anchor name) =>
    Reader.drop
    match ← Reader.peek with
    | some (.tag t) => Reader.drop; pure (some name, some t)
    | _ => pure (some name, none)
  | some (.tag t) =>
    Reader.drop
    match ← Reader.peek with
    | some (.anchor name) => Reader.drop; pure (some name, some t)
    | _ => pure (none, some t)
  | _ => pure (none, none)

/-- The tag of a node in full. -/
def fullTag (handles : List (String × String)) : Option Tag → Reader (Option String)
  | none => pure none
  | some t =>
    match t.resolve? handles with
    | some tag => pure (some tag)
    | none => Reader.refuse

/-- An alias of the node whose anchor has a name. -/
def aliasOf (name : String) : Reader Node := fun s =>
  (Keyed.get? name s.anchors.names).map fun number => (.alias number, s)

/-- Reads a node with `body`, and keeps it if it has an anchor. -/
def anchored (name : Option String) (body : Reader Node) : Reader Node := fun s =>
  match name with
  | none => body s
  | some name => do
    let (order, anchors) := s.anchors.start name
    let (n, s) ← body { s with anchors := anchors }
    some (n, { s with anchors := s.anchors.finish order n })

/-! ## §3 The grammar -/

/-- In which surroundings a node stands: within a block, within a block where the entries of a
    sequence need no deeper column, or in the flow style. -/
inductive Surroundings where
  | block
  | mappingBlock
  | flow
deriving DecidableEq, Repr

mutual
/-- Reads a node. -/
def node (handles : List (String × String)) : Nat → Surroundings → Reader Node
  | 0, _ => Reader.refuse
  | fuel + 1, around => do
    match ← Reader.peek with
    | some (.alias name) => Reader.drop; aliasOf name
    | _ =>
      let (anchor, written) ← properties
      let tag ← fullTag handles written
      anchored anchor do
        match ← Reader.peek, around with
        | some .blockEntry, .mappingBlock => .sequence tag <$> flatEntries handles fuel
        | some (.scalar text plain), _ =>
          Reader.drop
          -- the tag that says nothing leaves a scalar as it is
          pure (.scalar (if tag = some "!" then none else tag) plain text)
        | some .openSequence, _ =>
          Reader.drop
          if ← Reader.dropIf .closeSequence then pure (.sequence tag [])
          else .sequence tag <$> flowItems handles fuel
        | some .openMapping, _ =>
          Reader.drop
          if ← Reader.dropIf .closeMapping then pure (.mapping tag [])
          else .mapping tag <$> flowEntries handles fuel
        | some .openBlockSequence, .flow => Reader.refuse
        | some .openBlockMapping, .flow => Reader.refuse
        | some .openBlockSequence, _ =>
          Reader.drop
          .sequence tag <$> blockItems handles fuel
        | some .openBlockMapping, _ =>
          Reader.drop
          .mapping tag <$> blockEntries handles fuel
        | _, _ =>
          -- properties alone stand for a scalar without text
          if anchor.isSome || tag.isSome then pure (.scalar tag true "") else Reader.refuse
/-- A node, or nothing in front of some tokens. -/
def nodeBefore (handles : List (String × String)) :
    Nat → Surroundings → List Token → Reader Node
  | 0, _, _ => Reader.refuse
  | fuel + 1, around, ts => do
    if ← Reader.atOneOf ts then pure .empty else node handles fuel around
/-- The entries of a sequence in a block of its own. -/
def blockItems (handles : List (String × String)) : Nat → Reader (List Node)
  | 0 => Reader.refuse
  | fuel + 1 => do
    if ← Reader.dropIf .closeBlock then pure []
    else if ← Reader.dropIf .blockEntry then
      let n ← nodeBefore handles fuel .block [.blockEntry, .closeBlock]
      (n :: ·) <$> blockItems handles fuel
    else Reader.refuse
/-- The entries of a sequence that has no block of its own. -/
def flatEntries (handles : List (String × String)) : Nat → Reader (List Node)
  | 0 => Reader.refuse
  | fuel + 1 => do
    if ← Reader.dropIf .blockEntry then
      let n ← nodeBefore handles fuel .block [.blockEntry, .key, .value, .closeBlock]
      (n :: ·) <$> flatEntries handles fuel
    else pure []
/-- The entries of a mapping in a block of its own. -/
def blockEntries (handles : List (String × String)) : Nat → Reader (List (Node × Node))
  | 0 => Reader.refuse
  | fuel + 1 => do
    if ← Reader.dropIf .closeBlock then pure []
    else if ← Reader.dropIf .key then
      let k ← nodeBefore handles fuel .mappingBlock [.key, .value, .closeBlock]
      let v ←
        if ← Reader.dropIf .value then
          nodeBefore handles fuel .mappingBlock [.key, .value, .closeBlock]
        else pure .empty
      ((k, v) :: ·) <$> blockEntries handles fuel
    else Reader.refuse
/-- The items of a sequence in the flow style, of which there is at least one. -/
def flowItems (handles : List (String × String)) : Nat → Reader (List Node)
  | 0 => Reader.refuse
  | fuel + 1 => do
    let n ←
      if ← Reader.dropIf .key then
        let e ← flowPair handles fuel
        pure (.mapping none [e])
      else node handles fuel .flow
    (n :: ·) <$> moreItems handles fuel
/-- What follows an item of a sequence in the flow style. -/
def moreItems (handles : List (String × String)) : Nat → Reader (List Node)
  | 0 => Reader.refuse
  | fuel + 1 => do
    if ← Reader.dropIf .closeSequence then pure []
    else if ← Reader.dropIf .flowEntry then
      if ← Reader.dropIf .closeSequence then pure [] else flowItems handles fuel
    else Reader.refuse
/-- The single entry of a mapping that is an item of a sequence. The token behind a key that is
    left out counts as part of it. -/
def flowPair (handles : List (String × String)) : Nat → Reader (Node × Node)
  | 0 => Reader.refuse
  | fuel + 1 => do
    let k ←
      if ← Reader.atOneOf [.value, .flowEntry, .closeSequence] then
        Reader.drop
        pure .empty
      else node handles fuel .flow
    let v ←
      if ← Reader.dropIf .value then
        nodeBefore handles fuel .flow [.flowEntry, .closeSequence]
      else pure .empty
    pure (k, v)
/-- The entries of a mapping in the flow style, of which there is at least one. -/
def flowEntries (handles : List (String × String)) : Nat → Reader (List (Node × Node))
  | 0 => Reader.refuse
  | fuel + 1 => do
    let e ←
      if ← Reader.dropIf .key then
        let k ← nodeBefore handles fuel .flow [.value, .flowEntry, .closeMapping]
        let v ←
          if ← Reader.dropIf .value then
            nodeBefore handles fuel .flow [.flowEntry, .closeMapping]
          else pure .empty
        pure (k, v)
      else do
        let k ← node handles fuel .flow
        pure (k, .empty)
    (e :: ·) <$> moreEntries handles fuel
/-- What follows an entry of a mapping in the flow style. -/
def moreEntries (handles : List (String × String)) : Nat → Reader (List (Node × Node))
  | 0 => Reader.refuse
  | fuel + 1 => do
    if ← Reader.dropIf .closeMapping then pure []
    else if ← Reader.dropIf .flowEntry then
      if ← Reader.dropIf .closeMapping then pure [] else flowEntries handles fuel
    else Reader.refuse
end

/-! ## §4 Documents -/

/-- The directives in front of a document, with the handles that they name: at most one of them
    gives the version, which is 1.1 or 1.2, and each handle is named once. -/
def directives : List Token → Bool → List (String × String) →
    Option (List (String × String) × List Token)
  | .directive (.version major minor) :: ts, versioned, handles =>
    if versioned ∨ major ≠ 1 ∨ (minor ≠ 1 ∧ minor ≠ 2) then none else directives ts true handles
  | .directive (.handle name beginning) :: ts, versioned, handles =>
    if Keyed.has name handles then none
    else directives ts versioned (Keyed.insert name beginning handles)
  | ts, _, handles => some (handles, ts)

/-- The tokens of a document behind its directives and its mark, if it has a mark. -/
def documentBody? : List Token → Option (Bool × List (String × String) × List Token)
  | ts => do
    let (handles, rest) ← directives ts false []
    let handles := Keyed.union standardHandles handles
    match rest with
    | .documentStart :: rest => some (true, handles, rest)
    | _ => if rest.length = ts.length then some (false, handles, ts) else none

/-- The tokens that end the content of a document. -/
def endsDocument : Option Token → Bool
  | none => true
  | some .documentStart => true
  | some .documentEnd => true
  | some (.directive _) => true
  | _ => false

/-- Reads the one document of a text; a text without tokens is an empty node. Nothing may follow
    the document but marks of its end. -/
def Stream.ofTokens? (ts : List Token) : Option Stream := do
  if ts = [] then some ⟨.empty, []⟩
  else
    let (marked, handles, body) ← documentBody? ts
    let (root, s) ←
      if marked && endsDocument body.head? then some (Node.empty, ⟨body, .empty⟩)
      else node handles (4 * (body.length + 1)) .block ⟨body, .empty⟩
    if s.tokens.all (· = .documentEnd) then some ⟨root, s.anchors.byNumber⟩ else none

end Testbed.Yaml

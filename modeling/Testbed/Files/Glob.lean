/-!
# Glob patterns

Patterns for path texts: `?` is any character, `*` any run of characters, `**` as a whole
component any run of components, `[…]` one of some characters and `[!…]` any other. Nothing else
is special.

- `Glob.read` reads a pattern or says where it is broken.
- `Glob.matchesText` says whether a text matches.
-/

namespace Testbed

/-- One character, or a range of them. -/
inductive Glob.Specifier where
  | single (c : Char)
  | range (first last : Char)
deriving DecidableEq, Repr

/-- The parts of a pattern. -/
inductive Glob.Token where
  | literal (c : Char)
  | one
  | many
  | deep
  | within (specifiers : List Glob.Specifier)
  | outside (specifiers : List Glob.Specifier)
deriving DecidableEq, Repr

/-- What is wrong with a pattern. -/
inductive Glob.FaultKind where
  | wildcards
  | recursiveWildcards
  | invalidRange
deriving DecidableEq, Repr

/-- What is wrong with a pattern and at which character. -/
structure Glob.Fault where
  position : Nat
  kind : Glob.FaultKind
deriving DecidableEq, Repr

namespace Glob

/-- The wording of a fault. -/
def Fault.message (f : Fault) : String :=
  let reason := match f.kind with
    | .wildcards => "wildcards are either regular `*` or recursive `**`"
    | .recursiveWildcards => "recursive wildcards must form a single path component"
    | .invalidRange => "invalid range pattern"
  s!"Pattern syntax error near position {f.position}: {reason}"

/-! ## §1 Reading -/

/-- The specifiers between brackets. -/
def specifiers : List Char → List Specifier
  | a :: '-' :: b :: rest => .range a b :: specifiers rest
  | a :: rest => .single a :: specifiers rest
  | [] => []

/-- The text up to the next closing bracket, and what follows it. -/
def untilBracket? : List Char → Option (List Char × List Char)
  | [] => none
  | c :: cs =>
    if c = ']' then some ([], cs)
    else (untilBracket? cs).map fun (inside, rest) => (c :: inside, rest)

/-- What follows an opening bracket: the token, its length after the bracket, and the rest. The
    first character between the brackets may itself be a closing bracket. -/
def bracket? : List Char → Option (Token × Nat × List Char)
  | '!' :: c :: cs =>
    (untilBracket? cs).map fun (inside, rest) =>
      (.outside (specifiers (c :: inside)), inside.length + 3, rest)
  | '!' :: [] => none
  | c :: cs =>
    (untilBracket? cs).map fun (inside, rest) =>
      (.within (specifiers (c :: inside)), inside.length + 2, rest)
  | [] => none

/-- Reads the pattern from the character at `position`, which `previous` comes before. `fuel`
    bounds the tokens. -/
def readFrom : Nat → Nat → Option Char → List Char → Except Fault (List Token)
  | 0, _, _, _ => .ok []
  | _ + 1, _, _, [] => .ok []
  | fuel + 1, position, previous, c :: cs =>
    match c with
    | '?' => (.one :: ·) <$> readFrom fuel (position + 1) (some c) cs
    | '*' =>
      let stars := cs.takeWhile (· = '*')
      let rest := cs.dropWhile (· = '*')
      match stars.length with
      | 0 => (.many :: ·) <$> readFrom fuel (position + 1) (some c) cs
      -- two stars have to be a whole component
      | 1 =>
        if previous.all (· = '/') then
          match rest with
          | [] => .ok [.deep]
          | '/' :: rest => (.deep :: ·) <$> readFrom fuel (position + 3) (some '/') rest
          | _ => .error ⟨position + 2, .recursiveWildcards⟩
        else .error ⟨position - 1, .recursiveWildcards⟩
      | _ => .error ⟨position + 2, .wildcards⟩
    | '[' =>
      match bracket? cs with
      | some (token, length, rest) =>
        (token :: ·) <$> readFrom fuel (position + 1 + length) (some ']') rest
      | none => .error ⟨position, .invalidRange⟩
    | _ => (.literal c :: ·) <$> readFrom fuel (position + 1) (some c) cs

/-- Reads a pattern. -/
def read (pattern : String) : Except Fault (List Token) :=
  let cs := pattern.toList
  readFrom (cs.length + 1) 0 none cs

/-! ## §2 Matching -/

/-- Whether a specifier admits a character. -/
def Specifier.admits (c : Char) : Specifier → Bool
  | .single d => c = d
  | .range first last => first ≤ c && c ≤ last

/-- Whether some way to skip characters before a slash leads to a match. -/
def skipName (next : List Char → Bool) : List Char → Bool
  | [] => next []
  | c :: cs => next (c :: cs) || (c != '/' && skipName next cs)

/-- Whether some way to skip whole components, or the whole rest, leads to a match. -/
def skipComponents (next : List Char → Bool) : List Char → Bool
  | [] => next []
  | c :: cs => (c = '/' && next cs) || skipComponents next cs

/-- Whether a text matches tokens. No token but `**` and a slash itself takes a slash. -/
def matchesFrom : List Token → List Char → Bool
  | [], cs => cs.isEmpty
  | .many :: ts, cs => skipName (matchesFrom ts) cs
  | .deep :: ts, cs => matchesFrom ts cs || skipComponents (matchesFrom ts) cs
  | .literal d :: ts, c :: cs => c = d && matchesFrom ts cs
  | .one :: ts, c :: cs => c != '/' && matchesFrom ts cs
  | .within ss :: ts, c :: cs => c != '/' && ss.any (·.admits c) && matchesFrom ts cs
  | .outside ss :: ts, c :: cs => c != '/' && !ss.any (·.admits c) && matchesFrom ts cs
  | .literal _ :: _, [] => false
  | .one :: _, [] => false
  | .within _ :: _, [] => false
  | .outside _ :: _, [] => false

/-- Whether a text matches a pattern. -/
def matchesText (ts : List Token) (text : String) : Bool :=
  matchesFrom ts text.toList

/-- The text of a pattern without special parts. -/
def literal? : List Token → Option (List Char)
  | [] => some []
  | .literal c :: ts => (literal? ts).map (c :: ·)
  | _ :: _ => none

end Glob

end Testbed

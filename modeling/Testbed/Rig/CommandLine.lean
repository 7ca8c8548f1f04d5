import Testbed.Rig.Resolve

/-!
# Command line

The arguments of the compiler: `-c`/`--config PATH`, at least once, `-o`/`--overwrite PATH=VALUE`,
any number of times, `--strict`, at most once, and `-h`/`--help`. A value stands in the argument
behind its option, or in the same argument: `-cPATH`, `-c=PATH`, `--config=PATH`. A text that
starts with a hyphen is an option and never the value of one, unless it is a hyphen alone.
-/

namespace Testbed.CommandLine

/-- What is wrong with a value. -/
inductive ValueFault where
  | noEquals (raw : String)
  | emptyRoute (raw : String)
deriving DecidableEq, Repr

/-- The wording of a fault. -/
def ValueFault.message : ValueFault → String
  | noEquals raw => s!"expected PATH=VALUE, got `{raw}`"
  | emptyRoute raw => s!"empty path in `{raw}`"

/-- Why arguments were refused. -/
inductive Fault where
  | badValue (fault : ValueFault)
  | missingRequired
  | unknownArgument
  | missingValue
  | conflict
  | tooManyValues
  | help
deriving DecidableEq, Repr

/-- The wording of a fault in a value. -/
def Fault.message? : Fault → Option String
  | badValue fault => some fault.message
  | _ => none

/-- Reads a route and the text that is to be set there. -/
def readOverwrite (raw : String) : Except ValueFault (String × String) :=
  match Text.cutFirst '=' raw with
  | none => .error (.noEquals raw)
  | some (route, value) => if route = "" then .error (.emptyRoute raw) else .ok (route, value)

/-! ## §1 What one argument is -/

/-- The options that take a value. -/
inductive Valued where
  | config
  | overwrite
deriving DecidableEq, Repr

/-- The options. -/
inductive Switch where
  | valued (option : Valued)
  | strict
  | help
deriving DecidableEq, Repr

/-- The option with a long name. -/
def Switch.ofName? : String → Option Switch
  | "config" => some (.valued .config)
  | "overwrite" => some (.valued .overwrite)
  | "strict" => some .strict
  | "help" => some .help
  | _ => none

/-- The option with a letter. -/
def Switch.ofLetter? : Char → Option Switch
  | 'c' => some (.valued .config)
  | 'o' => some (.valued .overwrite)
  | 'h' => some .help
  | _ => none

/-- One argument by its form: the end of the options, an option by its name with the text behind
    an equals sign, an option by its letter with the text behind the letter, or any other text. -/
inductive Word where
  | endOfOptions
  | named (name : String) (attached : Option String)
  | lettered (letter : Char) (rest : List Char)
  | plain (text : String)
deriving DecidableEq, Repr

/-- The form of an argument. -/
def Word.ofText (arg : String) : Word :=
  match arg.toList with
  | ['-', '-'] => .endOfOptions
  | '-' :: '-' :: cs =>
    match Text.cutFirstOf '=' cs with
    | some (name, value) => .named (String.ofList name) (some (String.ofList value))
    | none => .named (String.ofList cs) none
  | '-' :: letter :: rest => .lettered letter rest
  | _ => .plain arg

/-- The value in the same argument as an option's letter: what stands behind the letter, less an
    equals sign in front. -/
def attachedValue? : List Char → Option String
  | [] => none
  | '=' :: value => some (String.ofList value)
  | value => some (String.ofList value)

/-! ## §2 Reading arguments one by one -/

/-- What has been read so far. The value of an option is checked when the next option is read, or
    at the end. -/
structure State where
  request : Rig.Request
  pending : Option (Valued × Option String)

/-- Nothing has been read. -/
def State.start : State :=
  ⟨⟨[], [], false⟩, none⟩

/-- Takes in the value of an option. -/
def take (r : Rig.Request) : Valued → String → Except Fault Rig.Request
  | .config, raw =>
    if raw = "" then .error .missingValue else .ok { r with paths := r.paths ++ [raw] }
  | .overwrite, raw =>
    match readOverwrite raw with
    | .ok edit => .ok { r with overwrites := r.overwrites ++ [edit] }
    | .error fault => .error (.badValue fault)

/-- Takes in the value of the pending option. -/
def State.settle (s : State) : Except Fault Rig.Request :=
  match s.pending with
  | none => .ok s.request
  | some (_, none) => .error .missingValue
  | some (option, some raw) => take s.request option raw

/-- Reads an option, with the value in its own argument if there is one. -/
def State.read (s : State) (switch : Switch) (attached : Option String) : Except Fault State :=
  match switch, attached with
  | .valued option, some raw => do
    let r ← take (← s.settle) option raw
    .ok ⟨r, none⟩
  | .valued option, none => do
    .ok ⟨← s.settle, some (option, none)⟩
  | _, some _ => .error .tooManyValues
  | .strict, none => do
    let r ← s.settle
    if r.strict then .error .conflict else .ok ⟨{ r with strict := true }, none⟩
  | .help, none => do
    let _ ← s.settle
    .error .help

/-- Reads one argument. A text that is not an option is the value of the pending option, which
    takes only one. -/
def State.step (s : State) : Word → Except Fault State
  | .named name attached =>
    match Switch.ofName? name with
    | some switch => s.read switch attached
    | none => .error .unknownArgument
  | .lettered letter rest =>
    match Switch.ofLetter? letter with
    | some (.valued option) => s.read (.valued option) (attachedValue? rest)
    | some switch => s.read switch none
    | none => .error .unknownArgument
  | .plain text =>
    match s.pending with
    -- the first text behind an option is its value, and there are no other texts
    | some (option, none) => .ok { s with pending := some (option, some text) }
    | _ => .error .unknownArgument
  | .endOfOptions => .ok s

/-- The request, when all arguments have been read. -/
def State.finish (s : State) : Except Fault Rig.Request := do
  let r ← s.settle
  if r.paths = [] then .error .missingRequired else .ok r

/-- Reads arguments onto a state. Nothing may follow the end of the options. -/
def readFrom (s : State) : List String → Except Fault Rig.Request
  | [] => s.finish
  | arg :: rest =>
    match Word.ofText arg with
    | .endOfOptions => if rest = [] then s.finish else .error .unknownArgument
    | word => do readFrom (← s.step word) rest

/-- Reads the arguments of a call, of which the first is the name of the program. -/
def parse (args : List String) : Except Fault Rig.Request :=
  readFrom State.start args.tail

end Testbed.CommandLine

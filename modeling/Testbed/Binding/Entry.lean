import Testbed.Error
import Testbed.Value.Basic

/-!
# Action entries

An entry of a list of actions is a text `verb/service`, for the verbs that need no payload, or a
map with the one key `verb[/service[/name]]`, whose value is the payload. Reading an entry settles
which record of actions it makes, from which payload, and what its key says about service and
name; filling the record is left to binding.

- `Entry.read` reads an entry into a `Plan`.
- `Plan.finish` puts the service and the name of the key over those of the payload.
-/

namespace Testbed

/-- What an entry asks for: the kind of action, the map to fill it from, and the service and name
    that its key gives. -/
structure Plan where
  kind : ActionKind
  payload : List (String × Data)
  service : Option String
  name : Option String

namespace Plan

/-- The field that the name of a key sets: an identifier for what has a result, a name for what
    is reported, nothing for the others. -/
def nameField? : ActionKind → Option String
  | .bench => some "id"
  | .execute => some "id"
  | .request => some "id"
  | .expectCustom => some "name"
  | .expectMetrics => some "name"
  | .expectOutput => some "name"
  | .expectResponse => some "name"
  | .sequential => some "name"
  | _ => none

/-- Sets a field to a text, where there is one. -/
def setText (ident : Option String) (s : Option String) (v : Value) : Value :=
  match ident, s with
  | some ident, some s => v.setSlot ident (.text s)
  | _, _ => v

/-- The action with service and name of the key put over those of the payload. -/
def finish (p : Plan) (action : Value) : Value :=
  let serviceField := if p.kind = .not then none else some "service"
  setText (nameField? p.kind) p.name (setText serviceField p.service action)

end Plan

namespace Entry

/-! ## §1 Keys -/

/-- The parts of a key. -/
structure Key where
  raw : String
  verb : String
  service : Option String
  name : Option String

/-- A fault of an entry. -/
def bad {α : Type} (entry : String) (fault : ActionFault) : Except Cause α :=
  .error (.badAction entry fault)

/-- Reads a key: one to three segments, none of them empty. -/
def Key.read (raw : String) : Except Cause Key :=
  let segments := Text.pieces '/' raw
  if 3 < segments.length then bad raw (.keySegments segments.length)
  else if "" ∈ segments then bad raw .emptySegment
  else .ok ⟨raw, segments.headD "", segments[1]?, segments[2]?⟩

/-- What a verb makes of a key. -/
inductive Verb where
  | expect
  | not
  | group (kind : ActionKind)
  | lifeCycle (kind : ActionKind)
  | workload (kind : ActionKind)

/-- The verbs. -/
def verb? : String → Option Verb
  | "expect" => some .expect
  | "not" => some .not
  | "parallel" => some (.group .parallel)
  | "sequential" => some (.group .sequential)
  | "start" => some (.lifeCycle .start)
  | "stop" => some (.lifeCycle .stop)
  | "restart" => some (.lifeCycle .restart)
  | "reload" => some (.lifeCycle .reload)
  | "request" => some (.workload .request)
  | "bench" => some (.workload .bench)
  | "execute" => some (.workload .execute)
  | _ => none

/-- Refuses a key without a service. -/
def Key.requireService (k : Key) : Except Cause Unit :=
  if k.service.isSome then .ok () else bad k.raw (.serviceRequired k.verb)

/-- Refuses a key with a service. -/
def Key.forbidService (k : Key) : Except Cause Unit :=
  if k.service.isSome then bad k.raw (.serviceForbidden k.verb) else .ok ()

/-- Refuses a key with a name. -/
def Key.forbidName (k : Key) : Except Cause Unit :=
  if k.name.isSome then bad k.raw (.nameForbidden k.verb) else .ok ()

/-! ## §2 Payloads -/

/-- The map that a payload stands for; no payload is an empty one. -/
def payloadMap : Data → Except Cause (List (String × Data))
  | .null => .ok []
  | .map entries => .ok entries
  | other => .error (.mismatch "map" other.kind)

/-- The map that the payload of a group stands for; a list is that of its actions. -/
def groupMap : Data → Except Cause (List (String × Data))
  | .list items => .ok [("actions", .list items)]
  | other => payloadMap other

/-- The keys that every expectation may have. -/
def sharedKeys : List String := ["service", "timeout", "when", "name", "on_failure"]

/-- The expectation that a key stands for. -/
def expectation? : String → Option ActionKind
  | "custom" => some .expectCustom
  | "metrics" => some .expectMetrics
  | "output" => some .expectOutput
  | "response" => some .expectResponse
  | _ => none

/-- The expectation that some keys stand for, after `found`. -/
def expectationKind (found : Option (String × ActionKind)) :
    List (String × Data) → Except Cause ActionKind
  | [] =>
    match found with
    | some (_, kind) => .ok kind
    | none => .error .noExpectationType
  | (key, _) :: rest =>
    if key ∈ sharedKeys then expectationKind found rest
    else match expectation? key with
      | none => .error (.expectationKey key)
      | some kind =>
        match found with
        | some (first, _) => .error (.expectationTypes first key)
        | none => expectationKind (some (key, kind)) rest

/-! ## §3 Entries -/

/-- Reads a text entry. -/
def readShorthand (raw : String) : Except Cause Plan :=
  match Text.pieces '/' raw with
  | [verb, service] =>
    if verb = "" ∨ service = "" then bad raw .emptySegment
    else match verb with
      | "bench" => .ok ⟨.bench, [], some service, none⟩
      | "execute" => .ok ⟨.execute, [], some service, none⟩
      | _ => .error (.unknownAction raw)
  | segments => bad raw (.shorthandSegments segments.length)

/-- Reads a key and its payload. -/
def readKeyed (raw : String) (payload : Data) : Except Cause Plan := do
  let key ← Key.read raw
  let plan (kind : ActionKind) (entries : List (String × Data)) : Plan :=
    ⟨kind, entries, key.service, key.name⟩
  match verb? key.verb with
  | none => .error (.unknownAction raw)
  | some .expect =>
    match payload with
    | .null => .error .noExpectationType
    | .map entries => do
      let kind ← expectationKind none entries
      .ok (plan kind entries)
    | other => .error (.mismatch "map" other.kind)
  | some .not => do
    key.forbidService
    match payload with
    | .map entries =>
      -- a negation has no service or name of its own
      if Keyed.has "action" entries then .ok ⟨.not, entries, none, none⟩
      else bad raw .nothingNegated
    | other => .error (.mismatch "map" other.kind)
  | some (.group kind) => do
    if kind = .parallel then key.forbidName
    let entries ← groupMap payload
    .ok (plan kind entries)
  | some (.lifeCycle kind) => do
    key.requireService
    key.forbidName
    let entries ← payloadMap payload
    .ok (plan kind entries)
  | some (.workload kind) => do
    key.requireService
    let entries ← payloadMap payload
    .ok (plan kind entries)

/-- Reads an entry. -/
def read : Data → Except Cause Plan
  | .text raw => readShorthand raw
  | .map [(key, payload)] => readKeyed key payload
  | .map [] => bad "\x7b\x7d" .emptyMap
  | .map entries => bad (", ".intercalate (entries.map (·.1))) (.manyKeys entries.length)
  | other => .error (.actionType other.kind)

end Entry

end Testbed

import Testbed.Value.Basic

/-!
# Views of a rig

What a configuration says, read off its value: the kinds of sandboxes, environments and actions,
and the parts that belong to all of a family.
-/

namespace Testbed

namespace ActionKind

/-- The verb that an action of a kind is written with. -/
def verb : ActionKind → String
  | bench => "bench"
  | execute => "execute"
  | start => "start"
  | stop => "stop"
  | restart => "restart"
  | reload => "reload"
  | request => "request"
  | expectCustom => "expect"
  | expectMetrics => "expect"
  | expectOutput => "expect"
  | expectResponse => "expect"
  | not => "not"
  | parallel => "parallel"
  | sequential => "sequential"

end ActionKind

namespace Value

/-- The kind of a value that is an action. -/
def actionKind? : Value → Option ActionKind
  | record (some (.action k)) _ => some k
  | _ => none

/-- The verb of an action. -/
def verb (v : Value) : String :=
  (v.actionKind?.map ActionKind.verb).getD ""

/-- The platform that a sandbox or an environment is for. -/
def platform? : Value → Option Platform
  | record (some (.sandbox p)) _ => some p
  | record (some (.environment p)) _ => some p
  | _ => none

mutual
/-- The service that an action is about; a negation is about that of the action it negates. -/
def service : Value → String
  | record (some (.action .not)) slots => negatedService slots
  | v => ((v.slot? "service").bind text?).getD ""
/-- The service of the first action among slots. -/
def negatedService : Slots → String
  | [] => ""
  | (field, v) :: rest => if field.ident = "action" then v.service else negatedService rest
end

/-- The actions directly inside an action: the one negated, or the members of a group. -/
def nested (v : Value) : List Value :=
  match v.actionKind? with
  | some .not => (v.slot? "action").toList
  | some .parallel => ((v.slot? "actions").map items).getD []
  | some .sequential => ((v.slot? "actions").map items).getD []
  | _ => []

/-- What all sandboxes have in common. -/
def commonPart : Value → Value
  | record _ slots => record none (slots.filter fun (field, _) => field.owner = "CommonSandbox")
  | v => v

/-! ## §1 Parts of a configuration -/

/-- The sandboxes of a configuration. -/
def sandboxes (c : Value) : List (String × Value) :=
  ((c.slot? "sandboxes").map entries).getD []

/-- The servers of a configuration. -/
def servers (c : Value) : List Value :=
  ((c.slot? "servers").map items).getD []

/-- The instances of a configuration. -/
def instances (c : Value) : List Value :=
  (((c.slot? "spec").bind (slot? "instances")).map items).getD []

/-- The actions of an instance. -/
def actions (i : Value) : List Value :=
  ((i.slot? "actions").map items).getD []

/-- The environments of an instance. -/
def environments (i : Value) : List (String × Value) :=
  ((i.slot? "environments").map entries).getD []

end Value

end Testbed

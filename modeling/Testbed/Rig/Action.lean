import Testbed.Shape

/-!
# Actions

The steps that an instance runs against its services: workload, life cycle, expectations about
the results, a negation, and groups.
-/

namespace Testbed.Rig

/-! ## §1 Shared fields -/

/-- When an action runs and what its failure means. -/
def conduct : List (String × String × Shape) := [
  ("timeout", "timeout", .int .i32),
  ("when", "when,enum=always|on_success|on_failure,default=on_success", .text),
  ("on_failure", "on_failure,enum=fail|ignore|skip,default=fail", .text)]

/-- The service that an action is about. -/
def service : String × String × Shape := ("service", "service", .text)

/-- The name that an action is reported under. -/
def name : String × String × Shape := ("name", "name", .text)

/-- The name that an action's result is kept under. -/
def id : String × String × Shape := ("id", "id,default=last", .text)

/-- The method of a request. -/
def method : String × String × Shape :=
  ("method", "method,enum=GET|HEAD|DELETE|POST|PUT|PATCH|OPTIONS,default=GET", .text)

/-- Texts under keys. -/
def texts (ident : String) : String × String × Shape := (ident, ident, .map .text)

/-- The actions of a group. -/
def members : String × String × Shape :=
  ("actions", "actions,factory=actions", .list (.oneOf .action))

/-! ## §2 What is expected -/

/-- An expectation that the rig's own code checks. -/
def customExpectation : Fields := declare "CustomExpectation" [
  name,
  texts "parameters"]

/-- A bound on a measured value. -/
def metricRule : Fields := declare "MetricRule" [
  ("metric", "metric", .text),
  ("operator", "operator,enum=eq|ne|lt|gt|le|ge,default=eq", .text),
  ("value", "value", .float .f64)]

/-- Bounds on the values of a benchmark. -/
def metricsExpectation : Fields := declare "MetricsExpectation" [
  id,
  ("rules", "rules", .list (.record metricRule))]

/-- Messages that a service writes. The fields shown as `match` and `type` are declared as
    `match_mode` and `output_type`. -/
def outputExpectation : Fields := declare "OutputExpectation" [
  ("order", "order,enum=fixed|random,default=fixed", .text),
  ("match", "match,enum=exact|regexp,default=exact", .text),
  ("type", "type,enum=stdout|stderr|any,default=any", .text),
  ("messages", "messages", .list .text)]

/-- The body of a response. -/
def responseBody : Fields := declare "ResponseBody" [
  ("content", "content", .text),
  ("pattern", "pattern", .text),
  ("render_template", "render_template,default=true", .bool)]

/-- The response to a request. -/
def responseExpectation : Fields := declare "ResponseExpectation" [
  ("request", "request,default=last", .text),
  texts "headers",
  ("body", "body,keys=content|pattern,string=content", .record responseBody)]

/-! ## §3 Actions -/

/-- An action on the life of services. -/
def lifeCycle (owner : String) : Fields := declare owner ([
  service,
  ("services", "services", .list .text)] ++ conduct)

/-- An expectation about a service. -/
def expectation (owner ident : String) (fields : Fields) : Fields := declare owner ([
  service,
  name,
  (ident, ident, .record fields)] ++ conduct)

/-- The fields of an action. -/
def action : ActionKind → Fields
  | .bench => declare "BenchAction" ([
      service,
      id,
      ("frequency", "frequency", .int .i32),
      ("duration", "duration", .int .i32),
      ("path", "path,default=/", .text),
      method,
      texts "headers"] ++ conduct)
  | .execute => declare "ExecuteAction" ([
      service,
      id,
      ("command", "command", .text),
      ("args", "args", .list .text),
      texts "env"] ++ conduct)
  | .start => lifeCycle "StartAction"
  | .stop => lifeCycle "StopAction"
  | .restart => lifeCycle "RestartAction"
  | .reload => lifeCycle "ReloadAction"
  | .request => declare "RequestAction" ([
      service,
      id,
      ("scheme", "scheme,enum=http|https,default=http", .text),
      ("path", "path,default=/", .text),
      ("encode_path", "encode_path,default=true", .bool),
      method,
      texts "headers"] ++ conduct)
  | .expectCustom => expectation "CustomExpectationAction" "custom" customExpectation
  | .expectMetrics => expectation "MetricsExpectationAction" "metrics" metricsExpectation
  | .expectOutput => expectation "OutputExpectationAction" "output" outputExpectation
  | .expectResponse => expectation "ResponseExpectationAction" "response" responseExpectation
  | .not => declare "NotAction" ([
      ("action", "action,factory=action", .oneOf .action)] ++ conduct)
  | .parallel => declare "ParallelAction" ([
      service,
      members] ++ conduct)
  | .sequential => declare "SequentialAction" ([
      service,
      name,
      members] ++ conduct)

end Testbed.Rig

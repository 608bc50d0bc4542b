import Vigil.Alarm.Draft
import Vigil.Document.Form
import Vigil.Time.Stamp

/-!
# Alarms as documents

The JSON forms of filters, conditions, definitions, policies and alarms. Times are texts in UTC with
`Z`, spans are whole seconds, identifiers are texts, and what a filter does not have is left out. The
compiled expression is not written.
-/

namespace Vigil

open Json (Slot)

def Instant.toJson (t : Instant) : Json := .string (Stamp.text "Z" t)

def Instant.ofJson? (j : Json) : Option Instant := do
  Stamp.read? (← j.string?)

def Uuid.toJson (id : Uuid) : Json := .string id.text

def Uuid.ofJson? (j : Json) : Option Uuid := do
  Uuid.read? (← j.string?)

def Span.toJson (s : Span) : Json := .int s.seconds

def Span.ofJson? (j : Json) : Option Span :=
  (j.nat? countLimit).map .ofSeconds

/-- A parameter: a whole number of 64 bits with a sign. -/
def paramOfJson? (j : Json) : Option Int := do
  let n ← j.int?
  if -9223372036854775808 ≤ n ∧ n ≤ 9223372036854775807 then some n else none

def Event.ofJson? (j : Json) : Option Event :=
  j.choice?.bind Event.ofText?

namespace Filter

def toJson (f : Filter) : Json :=
  .object (("selector", .string f.selector) ::
    Json.memberIfSome "transformation" .string f.transformation ++
    ("key", .string f.key) :: Json.memberIfSome "param" .int f.param)

def ofJson? (j : Json) : Option Filter := do
  match ← j.slots? ["selector", "transformation", "key", "param"] with
  | [selector, transformation, key, param] =>
    return {
      selector := ← selector.required Json.string?
      transformation := ← transformation.orElse none (Json.optional? Json.string?)
      key := ← key.required Json.string?
      param := ← param.orElse none (Json.optional? paramOfJson?) }
  | _ => none

end Filter

namespace Rule

def toJson (r : Rule) : Json :=
  .object [
    ("filters", .array (r.filters.map Filter.toJson)),
    ("expression", .string r.expression),
    ("trigger", .int r.trigger)]

def ofJson? (j : Json) : Option Rule := do
  match ← j.slots? ["filters", "expression", "trigger"] with
  | [filters, expression, trigger] =>
    return {
      filters := ← filters.required (Json.list? Filter.ofJson?)
      expression := ← expression.required Json.string?
      trigger := ← trigger.required (Json.nat? countLimit) }
  | _ => none

end Rule

namespace Entry

def toJson (e : Entry) : Json :=
  .object [
    ("id", e.id.toJson),
    ("alarm_id", e.alarmId.toJson),
    ("value", .string e.value),
    ("cleared", .bool e.cleared),
    ("fired_at", e.firedAt.toJson),
    ("cleared_at", Json.ofOption Instant.toJson e.clearedAt)]

def ofJson? (j : Json) : Option Entry := do
  match ← j.slots? ["id", "alarm_id", "value", "cleared", "fired_at", "cleared_at"] with
  | [id, alarmId, value, cleared, firedAt, clearedAt] =>
    return {
      id := ← id.required Uuid.ofJson?
      alarmId := ← alarmId.required Uuid.ofJson?
      value := ← value.required Json.string?
      cleared := ← cleared.required Json.bool?
      firedAt := ← firedAt.required Instant.ofJson?
      clearedAt := ← clearedAt.nullable Instant.ofJson? }
  | _ => none

end Entry

namespace Alarm

def toJson (a : Alarm) : Json :=
  .object [
    ("id", a.id.toJson),
    ("owner", .string a.owner),
    ("name", .string a.name),
    ("info", .string a.info),
    ("message", .string a.message),
    ("group", .string a.group),
    ("enabled", .bool a.enabled),
    ("fired", .bool a.fired),
    ("filter", a.rule.toJson),
    ("run_interval", a.runInterval.toJson),
    ("last_run", a.lastRun.toJson),
    ("created_at", a.createdAt.toJson),
    ("updated_at", a.updatedAt.toJson),
    ("history", .array (a.history.map Entry.toJson))]

def ofJson? (j : Json) : Option Alarm := do
  match ← j.slots? ["id", "owner", "name", "info", "message", "group", "enabled", "fired", "filter",
      "run_interval", "last_run", "created_at", "updated_at", "history"] with
  | [id, owner, name, info, message, group, enabled, fired, rule, runInterval, lastRun, createdAt,
      updatedAt, history] =>
    return {
      id := ← id.required Uuid.ofJson?
      owner := ← owner.required Json.string?
      name := ← name.required Json.string?
      info := ← info.required Json.string?
      message := ← message.required Json.string?
      group := ← group.required Json.string?
      enabled := ← enabled.required Json.bool?
      fired := ← fired.required Json.bool?
      rule := ← rule.required Rule.ofJson?
      runInterval := ← runInterval.required Span.ofJson?
      lastRun := ← lastRun.required Instant.ofJson?
      createdAt := ← createdAt.required Instant.ofJson?
      updatedAt := ← updatedAt.required Instant.ofJson?
      history := ← history.orElse [] (Json.list? Entry.ofJson?)
      compiled := none }
  | _ => none

end Alarm

namespace Draft

def ofJson? (j : Json) : Option Draft := do
  match ← j.slots? ["name", "info", "group", "message", "enabled", "interval", "trigger", "filter"] with
  | [name, info, group, message, enabled, interval, trigger, condition] =>
    return {
      name := ← name.required Json.string?
      info := ← info.orElse "" Json.string?
      group := ← group.required Json.string?
      message := ← message.orElse "" Json.string?
      enabled := ← enabled.orElse true Json.bool?
      interval := ← interval.required (Json.nat? countLimit)
      trigger := ← trigger.required (Json.nat? countLimit)
      condition := ← condition.required Json.string? }
  | _ => none

end Draft

namespace Policy

def toJson (p : Policy) : Json :=
  .object [
    ("name", .string p.name),
    ("duration", p.duration.toJson),
    ("sampling_rate", p.samplingRate.toJson)]

def ofJson? (j : Json) : Option Policy := do
  match ← j.slots? ["name", "duration", "sampling_rate"] with
  | [name, duration, samplingRate] =>
    return {
      name := ← name.required Json.string?
      duration := ← duration.required Span.ofJson?
      samplingRate := ← samplingRate.required Span.ofJson? }
  | _ => none

end Policy

namespace Source

def toJson : Source → Json
  | device name => .object [("device", .string name)]
  | group name => .object [("group", .string name)]

def ofJson? : Json → Option Source
  | .object [("device", .string name)] => some (device name)
  | .object [("group", .string name)] => some (group name)
  | _ => none

end Source

end Vigil

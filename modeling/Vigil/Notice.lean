import Vigil.Alarm.Document
import Vigil.Decimal.Fixed
import Vigil.Delivery.Failure

/-!
# Notices

What a template can say about an event of an alarm, and the message that a template makes of it. A message
has to say something: a template that renders to nothing but blanks is an error.

How a template is read and what its language can do is a matter of the renderer, which is given a notice as
a document and a filter for numbers.
-/

namespace Vigil

/-- The names of a template and their values. -/
structure Notice where
  alarmName : String
  alarmMessage : String
  alarmId : String
  timestamp : String
  timestampUnix : Int
  value : String
  groupId : String
  error : String
  event : Event
  deriving DecidableEq, Repr

namespace Notice

def ofEvent (a : Alarm) (event : Event) (value : String) (error : Option String) (now : Instant) :
    Notice where
  alarmName := a.name
  alarmMessage := a.message
  alarmId := a.id.text
  timestamp := Stamp.clockText now
  timestampUnix := now.seconds
  value := value
  groupId := a.group
  error := error.getD ""
  event := event

def toJson (c : Notice) : Json :=
  .object [
    ("alarm_name", .string c.alarmName),
    ("alarm_message", .string c.alarmMessage),
    ("alarm_id", .string c.alarmId),
    ("timestamp", .string c.timestamp),
    ("timestamp_unix", .int c.timestampUnix),
    ("value", .string c.value),
    ("group_id", .string c.groupId),
    ("error", .string c.error),
    ("event", .string c.event.text)]

end Notice

/-- A renderer knows which templates can be read, and renders one with a filter that shows a number to so
many decimal places. -/
structure Renderer where
  reads : String → Bool
  render? : (Float → Option Nat → String) → String → Json → Option String

namespace Renderer

/-- A number is shown to as many decimal places as a template says, or to none. -/
def round (value : Float) (places : Option Nat) : String :=
  Decimal.fixed (places.getD 0) value

def validate (r : Renderer) (template : String) : Except TemplateError Unit :=
  if r.reads template then .ok () else .error .malformed

end Renderer

def Notice.message (c : Notice) (r : Renderer) (template : String) : Except TemplateError String :=
  match r.render? Renderer.round template c.toJson with
  | none => .error .malformed
  | some text => if Text.isBlankText text then .error (.blank template) else .ok text

end Vigil

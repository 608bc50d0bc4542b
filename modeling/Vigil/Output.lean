import Vigil.Delivery.Document
import Vigil.Notice

/-!
# Outputs

An output tells one channel of the events of one alarm. It has a template for each kind of event and
says of which kinds it wants to hear. Every attempt to push a message is recorded.
-/

namespace Vigil

/-- One thing for each kind of event. -/
structure PerEvent (α : Type) where
  fire : α
  clear : α
  error : α
  deriving DecidableEq, Repr

def PerEvent.get {α : Type} (p : PerEvent α) : Event → α
  | .fire => p.fire
  | .clear => p.clear
  | .error => p.error

/-- A service that an owner has set up for outputs. -/
structure Channel where
  id : Uuid
  owner : String
  name : String
  service : Service

/-- The messages of an alarm for a channel. -/
structure Output where
  id : Uuid
  alarmId : Uuid
  name : String
  templates : PerEvent String
  channel : Channel
  enabled : Bool
  subscribed : PerEvent Bool
  lastPushed : Option Instant

/-- The outputs that are asked for. -/
structure Selection where
  onlyEnabled : Bool
  event : Option Event
  deriving DecidableEq, Repr

/-- The record of an attempt to push a message. -/
structure Push where
  outputId : Uuid
  success : Bool
  message : String
  timestamp : Instant
  deriving DecidableEq

namespace Output

/-- The templates of an output that brings none. -/
def defaultTemplates : PerEvent String where
  fire := "\x7b\x7b alarm_name \x7d\x7d fired: \x7b\x7b value \x7d\x7d"
  clear := "\x7b\x7b alarm_name \x7d\x7d cleared"
  error := "\x7b\x7b alarm_name \x7d\x7d failed: \x7b\x7b error \x7d\x7d"

/-- An enabled output that wants to hear of everything. -/
def ofChannel (id alarmId : Uuid) (name : String) (channel : Channel) : Output where
  id := id
  alarmId := alarmId
  name := name
  templates := defaultTemplates
  channel := channel
  enabled := true
  subscribed := ⟨true, true, true⟩
  lastPushed := none

end Output

namespace Selection

/-- The enabled outputs that want to hear of an event. -/
def ofEvent (event : Event) : Selection := ⟨true, some event⟩

def admits (s : Selection) (o : Output) : Bool :=
  (!s.onlyEnabled || o.enabled) && s.event.all o.subscribed.get

end Selection

def Channel.toJson (c : Channel) : Json :=
  .object [
    ("id", c.id.toJson),
    ("owner", .string c.owner),
    ("name", .string c.name),
    ("config", c.service.toJson)]

end Vigil

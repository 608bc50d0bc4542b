import Vigil.Output
import Vigil.Store.Tables.Cell

/-!
# Rows of tables

How records are kept in tables: identifiers as text, conditions and services as JSON, times and spans
in milliseconds. A row that cannot be read back fails every call that meets it.
-/

namespace Vigil

/-- The row of an alarm. -/
structure AlarmRow where
  id : String
  owner : String
  name : String
  info : String
  message : String
  group : String
  enabled : Cell
  fired : Cell
  rule : String
  runInterval : Cell
  lastRun : Cell
  createdAt : Cell
  updatedAt : Cell
  deriving DecidableEq, Repr

/-- The row of an entry of a history. -/
structure EntryRow where
  id : String
  alarmId : String
  value : String
  cleared : Bool
  firedAt : Int
  clearedAt : Option Int
  deriving DecidableEq, Repr

/-- The row of a channel. -/
structure ChannelRow where
  id : String
  owner : String
  name : String
  service : String
  deriving DecidableEq, Repr

/-- The row of an output. -/
structure OutputRow where
  id : String
  alarmId : String
  channelId : String
  name : String
  templates : PerEvent String
  enabled : Cell
  subscribed : PerEvent Cell
  lastPushed : Option Cell
  deriving DecidableEq, Repr

/-- The row of an attempt to push a message. -/
structure PushRow where
  outputId : String
  success : Bool
  message : String
  timestamp : Int
  deriving DecidableEq, Repr

/-- The row of a measured value. -/
structure ValueRow where
  device : String
  groups : String
  key : String
  timestamp : Int
  value : Float

def Uuid.ofStored (column text : String) : Except StorageError Uuid :=
  match Uuid.read? text with
  | some id => .ok id
  | none => .error (.undecodable s!"invalid {column} '{text}'")

/-- What a JSON column writes. -/
def Json.ofStored {α : Type} (read : Json → Option α) (column text : String) : Except StorageError α :=
  match (Json.ofText? text).bind read with
  | some a => .ok a
  | none => .error (.undecodable s!"invalid {column}")

def Instant.ofStored? : Option Int → Except StorageError (Option Instant)
  | none => .ok none
  | some millis => (Instant.ofStored millis).map some

namespace AlarmRow

/-- The row of an alarm; its history has rows of its own. -/
def ofAlarm (a : Alarm) : AlarmRow where
  id := a.id.text
  owner := a.owner
  name := a.name
  info := a.info
  message := a.message
  group := a.group
  enabled := .ofBool a.enabled
  fired := .ofBool a.fired
  rule := a.rule.toJson.text
  runInterval := .number a.runInterval.stored
  lastRun := .number a.lastRun.millis
  createdAt := .number a.createdAt.millis
  updatedAt := .number a.updatedAt.millis

def toAlarm (r : AlarmRow) : Except StorageError Alarm := do
  return {
    rule := ← Json.ofStored Rule.ofJson? "filter" r.rule
    runInterval := .ofStored (← r.runInterval.int)
    id := ← Uuid.ofStored "id" r.id
    owner := r.owner
    name := r.name
    info := r.info
    message := r.message
    group := r.group
    enabled := ← r.enabled.bool
    fired := ← r.fired.bool
    lastRun := ← r.lastRun.instant
    createdAt := ← r.createdAt.instant
    updatedAt := ← r.updatedAt.instant
    history := []
    compiled := none }

/-- The alarm is enabled and its interval, or the given one if that is longer, has passed. -/
def isDue (r : AlarmRow) (minInterval : Span) (now : Instant) : Bool :=
  r.enabled = .number 1 &&
    wordSum r.lastRun.summand (r.runInterval.atLeast minInterval.stored).summand ≤ now.millis

end AlarmRow

namespace EntryRow

def ofEntry (e : Entry) : EntryRow where
  id := e.id.text
  alarmId := e.alarmId.text
  value := e.value
  cleared := e.cleared
  firedAt := e.firedAt.millis
  clearedAt := e.clearedAt.map Instant.millis

def toEntry (r : EntryRow) : Except StorageError Entry := do
  return {
    id := ← Uuid.ofStored "id" r.id
    alarmId := ← Uuid.ofStored "alarm_id" r.alarmId
    value := r.value
    cleared := r.cleared
    firedAt := ← Instant.ofStored r.firedAt
    clearedAt := ← Instant.ofStored? r.clearedAt }

end EntryRow

namespace ChannelRow

def ofChannel (c : Channel) : ChannelRow where
  id := c.id.text
  owner := c.owner
  name := c.name
  service := c.service.toJson.text

def toChannel (r : ChannelRow) : Except StorageError Channel := do
  return {
    id := ← Uuid.ofStored "channel_id" r.id
    owner := r.owner
    name := r.name
    service := ← Json.ofStored Service.ofJson? "config" r.service }

end ChannelRow

namespace OutputRow

def ofOutput (o : Output) : OutputRow where
  id := o.id.text
  alarmId := o.alarmId.text
  channelId := o.channel.id.text
  name := o.name
  templates := o.templates
  enabled := .ofBool o.enabled
  subscribed := ⟨.ofBool o.subscribed.fire, .ofBool o.subscribed.clear, .ofBool o.subscribed.error⟩
  lastPushed := o.lastPushed.map fun t => .number t.millis

/-- The output of a row and of the row of its channel. -/
def toOutput (r : OutputRow) (c : ChannelRow) : Except StorageError Output := do
  return {
    channel := ← c.toChannel
    id := ← Uuid.ofStored "id" r.id
    alarmId := ← Uuid.ofStored "alarm_id" r.alarmId
    name := r.name
    templates := r.templates
    enabled := ← r.enabled.bool
    subscribed := ⟨← r.subscribed.fire.bool, ← r.subscribed.clear.bool, ← r.subscribed.error.bool⟩
    lastPushed := ← r.lastPushed.mapM Cell.instant }

end OutputRow

namespace PushRow

def ofPush (p : Push) : PushRow where
  outputId := p.outputId.text
  success := p.success
  message := p.message
  timestamp := p.timestamp.millis

def toPush (r : PushRow) : Except StorageError Push := do
  return {
    outputId := ← Uuid.ofStored "output_id" r.outputId
    success := r.success
    message := r.message
    timestamp := ← Instant.ofStored r.timestamp }

end PushRow

end Vigil

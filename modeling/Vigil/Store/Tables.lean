import Vigil.Store.Repository
import Vigil.Store.Tables.Groups
import Vigil.Store.Tables.Row

/-!
# The store in tables

A store that outlasts the program keeps every record as a row of a table. What a call answers has the
full precision that it was given; what is read back has been rounded to milliseconds. Measured values
are told apart by device, name and millisecond: a later one takes the place of an earlier one, and
brings its own groups. A value that is not a number is refused, and a zero has no sign.
-/

namespace Vigil

/-- A store in tables, with rows in the order of their creation. -/
structure Tables where
  alarms : List AlarmRow
  entries : List EntryRow
  channels : List ChannelRow
  outputs : List OutputRow
  pushes : List PushRow
  values : List ValueRow

namespace Tables

def empty : Tables := ⟨[], [], [], [], [], []⟩

/-- What a failure of the store means for an alarm. -/
def lift {α : Type} (r : Except StorageError α) : Except AlarmError α :=
  r.mapError .storage

def hasAlarm (t : Tables) (id : Uuid) : Bool :=
  t.alarms.any fun r => r.id = id.text

def createAlarm (t : Tables) (a : Alarm) : Except AlarmError Tables :=
  if t.hasAlarm a.id then .error (.conflict a.id.text)
  else .ok { t with alarms := t.alarms ++ [.ofAlarm a] }

def alarm (t : Tables) (id : Uuid) : Except AlarmError Alarm :=
  match t.alarms.find? fun r => r.id = id.text with
  | some r => lift r.toAlarm
  | none => .error (.notFound (.alarm id))

def dueAlarms (t : Tables) (minInterval : Span) (now : Instant) : Except AlarmError (List Alarm) :=
  lift ((t.alarms.filter fun r => r.isDue minInterval now).mapM AlarmRow.toAlarm)

def updateAlarm (t : Tables) (id : Uuid) (change : AlarmRow → AlarmRow) : Tables :=
  { t with alarms := t.alarms.map fun r => if r.id = id.text then change r else r }

/-- Whether an alarm has fired, and since when. -/
def setFired (t : Tables) (id : Uuid) (fired : Bool) (time : Instant) : Tables :=
  t.updateAlarm id fun r => { r with fired := .ofBool fired, updatedAt := .number time.millis }

/-- The row is that of an open entry of the alarm. -/
def isOpenOf (id : Uuid) (r : EntryRow) : Bool :=
  r.alarmId = id.text && !r.cleared

def fire (t : Tables) (id : Uuid) (value : String) (time : Instant) :
    Except AlarmError (Entry × Tables) :=
  if !t.hasAlarm id then .error (.notFound (.alarm id))
  else if t.entries.any (isOpenOf id) then .error (.conflict id.text)
  else
    let entry := Entry.opened (.ofNat t.entries.length) id value time
    .ok (entry, { t.setFired id true time with entries := t.entries ++ [.ofEntry entry] })

def clear (t : Tables) (id : Uuid) (time : Instant) : Except AlarmError (Entry × Tables) :=
  match t.entries.find? (isOpenOf id) with
  | none => .error (.notFound (.openEntry id))
  | some row => do
    let entry ← lift row.toEntry
    let close := fun (r : EntryRow) =>
      if r.id = row.id then { r with cleared := true, clearedAt := some time.millis } else r
    return (entry.close time, { t.setFired id false time with entries := t.entries.map close })

/-- Take note of the time at which an alarm was evaluated last. -/
def markRun (t : Tables) (id : Uuid) (time : Instant) : Except AlarmError Tables :=
  if t.hasAlarm id then .ok (t.updateAlarm id fun r => { r with lastRun := .number time.millis })
  else .error (.notFound (.alarm id))

/-- The rows of the entries of an alarm. -/
def entriesOf (t : Tables) (id : Uuid) : List EntryRow :=
  t.entries.filter fun r => r.alarmId = id.text

/-- The newest entries of a history. Of entries with one time the older comes first. -/
def history (t : Tables) (id : Uuid) (limit : Nat) : Except AlarmError (List Entry) :=
  let rows := (t.entriesOf id).mergeSort fun r s => decide (s.firedAt ≤ r.firedAt)
  lift ((rows.take limit).mapM EntryRow.toEntry)

def historySize (t : Tables) (id : Uuid) : Except AlarmError Nat :=
  .ok (t.entriesOf id).length

def createChannel (t : Tables) (c : Channel) : Except AlarmError Tables :=
  if t.channels.any fun r => r.id = c.id.text then
    .error (.storage (.queryFailed s!"channel {c.id.text} is there already"))
  else .ok { t with channels := t.channels ++ [.ofChannel c] }

def createOutput (t : Tables) (o : Output) : Except AlarmError Tables :=
  if !t.hasAlarm o.alarmId then .error (.notFound (.alarm o.alarmId))
  else if !t.channels.any fun r => r.id = o.channel.id.text then
    .error (.notFound (.channel o.channel.id))
  else if t.outputs.any fun r => r.id = o.id.text then
    .error (.storage (.queryFailed s!"output {o.id.text} is there already"))
  else .ok { t with outputs := t.outputs ++ [.ofOutput o] }

/-- The rows of the outputs of an alarm, each with that of its channel. -/
def outputsOf (t : Tables) (alarmId : Uuid) : List (OutputRow × ChannelRow) :=
  (t.outputs.filter fun r => r.alarmId = alarmId.text).filterMap fun r =>
    (t.channels.find? fun c => c.id = r.channelId).map fun c => (r, c)

def selectOutputs (t : Tables) (alarmId : Uuid) (s : Selection) : Except AlarmError (List Output) := do
  let outputs ← lift ((t.outputsOf alarmId).mapM fun (r, c) => r.toOutput c)
  return outputs.filter s.admits

def markPushed (t : Tables) (id : Uuid) (success : Bool) (message : String) (time : Instant) :
    Except AlarmError (Push × Tables) :=
  if !t.outputs.any fun r => r.id = id.text then .error (.notFound (.output id))
  else
    let push : Push := ⟨id, success, message, time⟩
    let touch := fun (r : OutputRow) =>
      if r.id = id.text then { r with lastPushed := some (.number time.millis) } else r
    .ok (push, { t with outputs := t.outputs.map touch, pushes := t.pushes ++ [.ofPush push] })

def pushesOf (t : Tables) (id : Uuid) : Except AlarmError (List Push) :=
  lift ((t.pushes.filter fun r => r.outputId = id.text).mapM PushRow.toPush)

/-- Two rows are of one device, name and millisecond. -/
def sameKey (r s : ValueRow) : Bool :=
  r.device = s.device && r.key = s.key && r.timestamp = s.timestamp

/-- Keep a value, in place of one with its device, name and millisecond. -/
def putValue (row : ValueRow) : List ValueRow → List ValueRow
  | [] => [row]
  | r :: rest => if sameKey r row then row :: rest else r :: putValue row rest

def valueRows (w : Measurement) : List ValueRow :=
  w.values.entries.map fun (key, value) =>
    { device := w.device, groups := Groups.encode w.groups, key
      timestamp := w.time.millis, value := if value == 0.0 then 0.0 else value }

/-- Keep the values of a measurement, all or none. -/
def write (t : Tables) (w : Measurement) : Except AlarmError Tables :=
  if w.values.values.any Float.isNaN then .error (.storage (.queryFailed "a value is not a number"))
  else .ok { t with values := (valueRows w).foldl (fun rows row => putValue row rows) t.values }

/-- The row is a source's. -/
def isOf (source : Source) (r : ValueRow) : Bool :=
  match source with
  | .device wanted => r.device = wanted
  | .group group => Groups.holds r.groups group

/-- The points of a source under a name from one time to another, in order of time. -/
def raw (t : Tables) (source : Source) (key : String) (start stop : Instant) :
    Except StorageError Series :=
  let wanted := fun (r : ValueRow) =>
    r.key = key && isOf source r && start.millis ≤ r.timestamp && r.timestamp ≤ stop.millis
  let rows := (t.values.filter wanted).mergeSort fun r s => decide (r.timestamp ≤ s.timestamp)
  rows.mapM fun r => do return ⟨← Instant.ofStored r.timestamp, r.value⟩

/-- One series for each filter of a query. -/
def query (t : Tables) (q : Query) : Except AlarmError (List Series) :=
  q.filters.mapM fun f => do
    let raw ← lift (t.raw q.source f.key (q.rawStart f) q.stop)
    (q.answer f raw).mapError .condition

instance : Repository Tables where
  createAlarm := createAlarm
  alarm := alarm
  dueAlarms := dueAlarms
  fire := fire
  clear := clear
  markRun := markRun
  history := history
  historySize := historySize
  createChannel := createChannel
  createOutput := createOutput
  outputs := selectOutputs
  markPushed := markPushed
  pushes := pushesOf
  write := write
  query := query

end Tables

end Vigil

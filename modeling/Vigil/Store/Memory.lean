import Vigil.Store.Repository

/-!
# The store in memory

Alarms and outputs are kept in the order of their creation. The measurements of a device are kept with
the groups that it was last written with, one series for each name. A value that arrives late is put
at its place in time, behind those of the same time; of a series that grows beyond its capacity the
oldest point is dropped.
-/

namespace Vigil

/-- A device: its groups and its series by name. -/
structure Device where
  groups : List String
  series : Named Series

/-- A store that lasts as long as the program. -/
structure Memory where
  alarms : List Alarm
  channels : List Channel
  outputs : List Output
  pushLog : List Push
  devices : Named Device
  entriesMade : Nat

namespace Memory

/-- The greatest number of points of a series. -/
def capacity : Nat := 10000

def empty : Memory := ⟨[], [], [], [], .empty, 0⟩

/-- The alarm of an identifier, with its history. -/
def stored (m : Memory) (id : Uuid) : Except AlarmError Alarm :=
  match m.alarms.find? fun a => a.id = id with
  | some a => .ok a
  | none => .error (.notFound (.alarm id))

/-- Put an alarm in place of the one with its identifier. -/
def replace (m : Memory) (a : Alarm) : Memory :=
  { m with alarms := m.alarms.map fun b => if b.id = a.id then a else b }

def createInPlace (a : Alarm) : InPlace Memory Unit := do
  if (← get).alarms.any fun b => b.id = a.id then throw (.conflict a.id.text)
  else modify fun m => { m with alarms := m.alarms ++ [a] }

def createAlarm (m : Memory) (a : Alarm) : Except AlarmError Memory :=
  ((createInPlace a).outcome m).map (·.2)

def alarm (m : Memory) (id : Uuid) : Except AlarmError Alarm :=
  (m.stored id).map Alarm.withoutHistory

def dueAlarms (m : Memory) (minInterval : Span) (now : Instant) : Except AlarmError (List Alarm) :=
  .ok ((m.alarms.filter fun a => a.isDue now minInterval).map Alarm.withoutHistory)

/-- Work in place on the alarm of an identifier. What the work leaves is kept, even if it fails. -/
def onAlarm {α : Type} (id : Uuid) (work : InPlace Alarm α) : InPlace Memory α := fun m =>
  match m.stored id with
  | .error cause => .error cause m
  | .ok a =>
    match work a with
    | .ok answer a => .ok answer (m.replace a)
    | .error cause a => .error cause (m.replace a)

/-- Open an entry in the history of an alarm, in place. -/
def fireInPlace (id : Uuid) (value : String) (time : Instant) : InPlace Memory Entry := do
  let made := (← get).entriesMade
  let entry ← onAlarm id (Alarm.fireInPlace (.ofNat made) value time)
  modify fun m => { m with entriesMade := made + 1 }
  return entry

/-- Open an entry in the history of an alarm. -/
def fire (m : Memory) (id : Uuid) (value : String) (time : Instant) :
    Except AlarmError (Entry × Memory) :=
  (fireInPlace id value time).outcome m

def clearInPlace (id : Uuid) (time : Instant) : InPlace Memory Entry :=
  onAlarm id (Alarm.clearInPlace time)

def clear (m : Memory) (id : Uuid) (time : Instant) : Except AlarmError (Entry × Memory) :=
  (clearInPlace id time).outcome m

/-- Take note in place of the time at which an alarm was evaluated last. -/
def markRunInPlace (id : Uuid) (time : Instant) : InPlace Memory Unit :=
  onAlarm id (modify fun a => { a with lastRun := time })

/-- Take note of the time at which an alarm was evaluated last. -/
def markRun (m : Memory) (id : Uuid) (time : Instant) : Except AlarmError Memory :=
  ((markRunInPlace id time).outcome m).map (·.2)

/-- The newest entries of a history. Of entries with one time the older comes first. -/
def history (m : Memory) (id : Uuid) (limit : Nat) : Except AlarmError (List Entry) := do
  let a ← m.stored id
  return (a.history.mergeSort fun e f => Instant.newerFirst e.firedAt f.firedAt).take limit

def historySize (m : Memory) (id : Uuid) : Except AlarmError Nat := do
  return (← m.stored id).history.length

/-- Keep a channel, in place of one with its identifier. -/
def createChannel (m : Memory) (c : Channel) : Except AlarmError Memory :=
  .ok { m with channels := (m.channels.filter fun d => d.id ≠ c.id) ++ [c] }

def createOutput (m : Memory) (o : Output) : Except AlarmError Memory := do
  let _ ← m.stored o.alarmId
  if m.channels.any fun c => c.id = o.channel.id then return { m with outputs := m.outputs ++ [o] }
  else throw (.notFound (.channel o.channel.id))

def outputsOf (m : Memory) (alarmId : Uuid) (s : Selection) : Except AlarmError (List Output) :=
  .ok (m.outputs.filter fun o => o.alarmId = alarmId && s.admits o)

/-- Set the time of the last push of the first output with an identifier. -/
def touch (id : Uuid) (time : Instant) : List Output → Option (List Output)
  | [] => none
  | o :: rest =>
    if o.id = id then some ({ o with lastPushed := some time } :: rest)
    else (touch id time rest).map (o :: ·)

/-- Record an attempt to push a message. -/
def markPushed (m : Memory) (id : Uuid) (success : Bool) (message : String) (time : Instant) :
    Except AlarmError (Push × Memory) :=
  match touch id time m.outputs with
  | none => .error (.notFound (.output id))
  | some outputs =>
    let push : Push := ⟨id, success, message, time⟩
    .ok (push, { m with outputs, pushLog := m.pushLog ++ [push] })

def pushes (m : Memory) (id : Uuid) : Except AlarmError (List Push) :=
  .ok (m.pushLog.filter fun p => p.outputId = id)

/-- Put a point at its place in time. -/
def insertPoint (p : Point) : Series → Series
  | [] => [p]
  | q :: rest => if q.time ≤ p.time then q :: insertPoint p rest else p :: q :: rest

/-- Keep one more point, within the capacity. -/
def keepPoint (p : Point) (series : Series) : Series :=
  let longer := insertPoint p series
  if capacity < longer.length then longer.tail else longer

/-- Keep the values that a device measured at one time. -/
def Device.keep (series : Named Series) (values : Named Float) (time : Instant) : Named Series :=
  values.entries.foldl
    (fun series (name, value) => series.insert name (keepPoint ⟨time, value⟩ ((series.get? name).getD [])))
    series

def write (m : Memory) (w : Measurement) : Except AlarmError Memory :=
  let before := match m.devices.get? w.device with
    | some d => d.series
    | none => .empty
  .ok { m with devices := m.devices.insert w.device ⟨w.groups, Device.keep before w.values w.time⟩ }

/-- The device is a source's. -/
def isOf (source : Source) (name : String) (d : Device) : Bool :=
  match source with
  | .device wanted => name == wanted
  | .group group => d.groups.contains group

/-- All points of a source under a name, in order of time. -/
def raw (m : Memory) (source : Source) (key : String) : Series :=
  let ofDevice := fun (name, d) => if isOf source name d then (d.series.get? key).getD [] else []
  (m.devices.entries.flatMap ofDevice).mergeSort fun p q => decide (p.time ≤ q.time)

/-- One series for each filter of a query. -/
def query (m : Memory) (q : Query) : Except AlarmError (List Series) :=
  q.filters.mapM fun f => (q.answer f (m.raw q.source f.key)).mapError .condition

instance : Repository Memory where
  createAlarm := createAlarm
  alarm := alarm
  dueAlarms := dueAlarms
  fire := fire
  clear := clear
  markRun := markRun
  history := history
  historySize := historySize
  createChannel := createChannel
  createOutput := createOutput
  outputs := outputsOf
  markPushed := markPushed
  pushes := pushes
  write := write
  query := query

end Memory

end Vigil

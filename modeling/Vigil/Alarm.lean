import Vigil.Alarm.State
import Vigil.Expression
import Vigil.InPlace
import Vigil.Time.Instant

/-!
# Alarms

An alarm watches one group of devices. It carries the filters and the expression of its condition, the
number of points in a row that must satisfy it, how often it is evaluated, and its history: one entry
per firing, the oldest first, closed when the alarm is cleared. At most one entry is open: firing
opens one and is refused while there is one, clearing closes it and is refused when there is none.

The expression is compiled when the alarm is made. An alarm that comes back from its stored form has
only the text, which is compiled on use.
-/

namespace Vigil

/-- One firing of an alarm. -/
structure Entry where
  id : Uuid
  alarmId : Uuid
  value : String
  cleared : Bool
  firedAt : Instant
  clearedAt : Option Instant
  deriving DecidableEq

/-- The condition of an alarm. -/
structure Rule where
  filters : List Filter
  expression : String
  trigger : Nat
  deriving DecidableEq

/-- A watched condition and what became of it so far. -/
structure Alarm where
  id : Uuid
  owner : String
  name : String
  info : String
  message : String
  group : String
  enabled : Bool
  fired : Bool
  rule : Rule
  runInterval : Span
  lastRun : Instant
  createdAt : Instant
  updatedAt : Instant
  history : List Entry
  compiled : Option Expression

def Entry.opened (id alarmId : Uuid) (value : String) (at_ : Instant) : Entry :=
  { id, alarmId, value, cleared := false, firedAt := at_, clearedAt := none }

def Entry.close (e : Entry) (at_ : Instant) : Entry :=
  { e with cleared := true, clearedAt := some at_ }

namespace Alarm

/-- The compiled condition. -/
def expression (a : Alarm) : Except AlarmError Expression :=
  match a.compiled with
  | some e => .ok e
  | none =>
    match Expression.compile a.rule.expression with
    | .ok e => .ok e
    | .error cause => .error (.syntaxError cause)

def state (a : Alarm) : AlarmState :=
  if a.fired then .fired else .idle

/-- The alarm is enabled and its interval, or the given one if that is longer, has passed since its
last run. A next run that has no instant never comes. -/
def isDue (a : Alarm) (now : Instant) (minInterval : Span) : Bool :=
  a.enabled &&
    match a.lastRun.add? (a.runInterval.longer minInterval) with
    | some next => decide (next ≤ now)
    | none => false

/-- The greatest trigger that a window is measured with: `2 ^ 32 - 1`. -/
def maxWindowTrigger : Nat := 4294967295

/-- The times that an evaluation looks at: as many run intervals back as points are needed. -/
def window (a : Alarm) (now : Instant) : Instant × Instant :=
  (now.back (a.runInterval.times (min a.rule.trigger maxWindowTrigger)), now)

def openEntry? (a : Alarm) : Option Entry :=
  a.history.find? fun e => !e.cleared

/-- Close the first open entry of a history. -/
def closeFirst (at_ : Instant) : List Entry → List Entry
  | [] => []
  | e :: rest => if e.cleared then e :: closeFirst at_ rest else e.close at_ :: rest

/-- Open an entry in place, and the alarm with it. -/
def fireInPlace (entryId : Uuid) (value : String) (at_ : Instant) : InPlace Alarm Entry := do
  let a ← get
  match a.openEntry? with
  | some _ => throw (.conflict a.id.text)
  | none =>
    let entry := Entry.opened entryId a.id value at_
    modify fun a => { a with history := a.history ++ [entry] }
    modify fun a => { a with fired := true }
    modify fun a => { a with updatedAt := at_ }
    return entry

def clearInPlace (at_ : Instant) : InPlace Alarm Entry := do
  let a ← get
  match a.openEntry? with
  | none => throw (.notFound (.openEntry a.id))
  | some entry =>
    modify fun a => { a with history := closeFirst at_ a.history }
    modify fun a => { a with fired := false }
    modify fun a => { a with updatedAt := at_ }
    return entry.close at_

/-- Open an entry, and the alarm with it. -/
def fire (a : Alarm) (entryId : Uuid) (value : String) (at_ : Instant) :
    Except AlarmError (Entry × Alarm) :=
  (fireInPlace entryId value at_).outcome a

/-- Close the open entry. -/
def clear (a : Alarm) (at_ : Instant) : Except AlarmError (Entry × Alarm) :=
  (clearInPlace at_).outcome a

/-- The alarm without its history, as it is handed out. -/
def withoutHistory (a : Alarm) : Alarm :=
  { a with history := [] }

/-- Two alarms are the same apart from the times of their creation and their last change. -/
def agrees (a b : Alarm) : Bool :=
  a.id == b.id && a.owner == b.owner && a.name == b.name && a.info == b.info &&
    a.message == b.message && a.group == b.group && a.enabled == b.enabled && a.fired == b.fired &&
    a.rule == b.rule && a.runInterval == b.runInterval && a.lastRun == b.lastRun &&
    a.history == b.history

end Alarm

end Vigil

import Vigil.Output
import Vigil.Series.Query

/-!
# Repositories

What keeps alarms, their histories, the outputs and the measurements. A call on a repository either
succeeds, with what it answers and the repository afterwards, or fails and changes nothing.

Alarms are handed out without their history. Firing is refused while an entry is open, clearing when
none is, so that an event that is seen twice happens once.
-/

namespace Vigil

/-- Values that a device measured at one time. -/
structure Measurement where
  device : String
  groups : List String
  values : Named Float
  time : Instant

/-- The entries on a page of a history. -/
def historyPage : Nat := 20

/-- Types whose values keep alarms, outputs and measurements. -/
class Repository (σ : Type) where
  /-- Keep a new alarm; an identifier that is taken is a conflict. -/
  createAlarm : σ → Alarm → Except AlarmError σ
  /-- The alarm of an identifier. -/
  alarm : σ → Uuid → Except AlarmError Alarm
  /-- The alarms that are due, in the order of their creation. -/
  dueAlarms : σ → Span → Instant → Except AlarmError (List Alarm)
  /-- Open an entry in the history of an alarm. -/
  fire : σ → Uuid → String → Instant → Except AlarmError (Entry × σ)
  /-- Close the open entry of an alarm. -/
  clear : σ → Uuid → Instant → Except AlarmError (Entry × σ)
  /-- Take note of the time at which an alarm was evaluated last. -/
  markRun : σ → Uuid → Instant → Except AlarmError σ
  /-- The newest entries of a history, the newest first. -/
  history : σ → Uuid → Nat → Except AlarmError (List Entry)
  /-- The number of entries of a history. -/
  historySize : σ → Uuid → Except AlarmError Nat
  /-- Keep a new channel. -/
  createChannel : σ → Channel → Except AlarmError σ
  /-- Keep a new output; its alarm and its channel have to be there. -/
  createOutput : σ → Output → Except AlarmError σ
  /-- The outputs of an alarm that are asked for, in the order of their creation. -/
  outputs : σ → Uuid → Selection → Except AlarmError (List Output)
  /-- Record an attempt to push a message. -/
  markPushed : σ → Uuid → Bool → String → Instant → Except AlarmError (Push × σ)
  /-- The attempts of an output, the oldest first. -/
  pushes : σ → Uuid → Except AlarmError (List Push)
  /-- Keep the values of a measurement. -/
  write : σ → Measurement → Except AlarmError σ
  /-- One series for each filter of a query, in the order of the filters. -/
  query : σ → Query → Except AlarmError (List Series)

end Vigil

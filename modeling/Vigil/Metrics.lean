/-!
# Counters

What the evaluation of alarms counts. Counts are either kept or thrown away.
-/

namespace Vigil

/-- What is counted. -/
inductive Counter where
  | evaluated
  | notified
  | fired
  | cleared
  | errored
  deriving DecidableEq, Repr

namespace Counter

def name : Counter → String
  | evaluated => "alarm_evaluate"
  | notified => "alarm_notification"
  | fired => "alarm_notification_fired"
  | cleared => "alarm_notification_cleared"
  | errored => "alarm_notification_error"

def all : List Counter := [evaluated, notified, fired, cleared, errored]

end Counter

/-- Counts, if they are kept. -/
inductive Metrics where
  | discarded
  | kept (counts : Counter → Nat)

namespace Metrics

def fresh : Metrics := kept fun _ => 0

def increase (c : Counter) : Metrics → Metrics
  | discarded => discarded
  | kept counts => kept fun d => if d = c then counts d + 1 else counts d

def count (c : Counter) : Metrics → Nat
  | discarded => 0
  | kept counts => counts c

/-- The counters that have counted something, with their names. -/
def shown (m : Metrics) : List (String × Nat) :=
  Counter.all.filterMap fun c => if m.count c = 0 then none else some (c.name, m.count c)

end Metrics

end Vigil

import Vigil.Failure

/-!
# The life of a scheduler

A scheduler is started and stopped. Every start that takes effect brings a loop of its own into being,
of a new generation. A loop is current while the scheduler runs and has not been started again since.
Before and after each pass a loop looks whether it is still current, and ends when it is not. After a
pass it pauses for the interval, after one that broke down for the cooldown, and a stop wakes the
loops that pause.

Moments are nanoseconds since some beginning.
-/

namespace Vigil

/-- Whether a scheduler runs, and how often it was started. -/
structure Lifecycle where
  running : Bool
  generation : Nat
  deriving DecidableEq, Repr

/-- What a loop is about to do. -/
inductive Phase where
  | checking
  | passing
  | rechecking
  | pausing (deadline : Nat)
  | ended
  deriving DecidableEq, Repr

/-- A loop of a scheduler. -/
structure Loop where
  generation : Nat
  phase : Phase
  deriving DecidableEq, Repr

/-- A scheduler: how long its loops pause, its life and its loops, the oldest first. -/
structure Scheduler where
  interval : Span
  cooldown : Span
  lifecycle : Lifecycle
  loops : List Loop
  deriving DecidableEq

/-- The generation of the current loop is this one. -/
def Lifecycle.isCurrent (c : Lifecycle) (generation : Nat) : Bool :=
  c.running && c.generation == generation

namespace Loop

/-- Look whether the loop is still current. -/
def check (c : Lifecycle) (interval : Span) (moment : Nat) (l : Loop) : Loop :=
  let current := c.isCurrent l.generation
  match l.phase with
  | .checking => { l with phase := if current then .passing else .ended }
  | .rechecking => { l with phase := if current then .pausing (moment + interval.nanos) else .ended }
  | _ => l

/-- Finish a pass, which may have broken down. -/
def finish (cooldown : Span) (moment : Nat) (brokeDown : Bool) (l : Loop) : Loop :=
  match l.phase with
  | .passing =>
    { l with phase := if brokeDown then .pausing (moment + cooldown.nanos) else .rechecking }
  | _ => l

def wake (l : Loop) : Loop :=
  match l.phase with
  | .pausing _ => { l with phase := .checking }
  | _ => l

/-- End a pause whose time is over. -/
def wakeAt (moment : Nat) (l : Loop) : Loop :=
  match l.phase with
  | .pausing deadline => if deadline ≤ moment then l.wake else l
  | _ => l

end Loop

namespace Scheduler

def leastInterval : Span := .ofSeconds 5

def create (interval cooldown : Span) : Except AlarmError Scheduler :=
  if interval < leastInterval then .error (.invalid (.tickTooShort leastInterval interval))
  else .ok ⟨interval, cooldown, ⟨false, 0⟩, []⟩

def isRunning (s : Scheduler) : Bool := s.lifecycle.running

/-- Start a scheduler; no effect on one that runs. -/
def start (s : Scheduler) : Bool × Scheduler :=
  if s.isRunning then (false, s)
  else
    let generation := s.lifecycle.generation + 1
    (true, { s with lifecycle := ⟨true, generation⟩, loops := s.loops ++ [⟨generation, .checking⟩] })

/-- Stop a scheduler; no effect on one that does not run. -/
def stop (s : Scheduler) : Bool × Scheduler :=
  if s.isRunning then
    (true, { s with lifecycle := { s.lifecycle with running := false }, loops := s.loops.map Loop.wake })
  else (false, s)

def text (s : Scheduler) : String :=
  "AlarmScheduler \x7b interval: " ++ s.interval.text ++ ", cooldown: " ++ s.cooldown.text ++ ", .. \x7d"

end Scheduler

end Vigil

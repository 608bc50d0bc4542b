import Vigil.Runner
import Vigil.Scheduler.Lifecycle

/-!
# A scheduler on the clock

A scheduler at work: time passes in whole seconds, and at each of them every loop whose pause is over
goes on until it pauses again or ends. A pass looks up the alarms that are due and runs them. It is
given what is going to happen to the next look-ups: they work, they fail, or the pass breaks down in
them; from then on all work.

At one second a loop makes at most one turn for each of the given look-ups and one more: only a pass
that breaks down can be followed by another at the same second.
-/

namespace Vigil

/-- What happens to a look-up of the alarms that are due. -/
inductive Lookup where
  | works
  | fails
  | breaksDown
  deriving DecidableEq, Repr

/-- A scheduler at work, with the seconds that have passed and those at which alarms were looked up, the
latest first. -/
structure Clocked (σ : Type) where
  scheduler : Scheduler
  engine : Engine σ
  reader : Reader
  script : List Lookup
  beginning : Instant
  elapsed : Nat
  lookups : List Nat

namespace Clocked

variable {σ : Type}

def now (w : Clocked σ) : Instant :=
  (w.beginning.add? (.ofSeconds w.elapsed)).getD .last

def moment (w : Clocked σ) : Nat :=
  w.elapsed * nanosPerSecond

def start (w : Clocked σ) : Bool × Clocked σ :=
  let (effect, scheduler) := w.scheduler.start
  (effect, { w with scheduler })

def stop (w : Clocked σ) : Bool × Clocked σ :=
  let (effect, scheduler) := w.scheduler.stop
  (effect, { w with scheduler })

variable [Repository σ]

/-- One pass over the alarms that are due; without a summary when it breaks down. -/
def pass (w : Clocked σ) : Option (Except AlarmError Summary) × Clocked σ :=
  let next := w.script.headD .works
  let w := { w with script := w.script.tail, lookups := w.elapsed :: w.lookups }
  match next with
  | .breaksDown => (none, w)
  | .fails => (some (.error (.storage (.queryFailed "look-up failed"))), w)
  | .works =>
    let (summary, engine) := w.engine.runDue w.reader w.scheduler.interval w.now
    (some summary, { w with engine })

/-- One turn of a loop: it looks whether it is current, and if so passes and looks again. -/
def turn (w : Clocked σ) (l : Loop) : Loop × Clocked σ :=
  let s := w.scheduler
  let l := l.check s.lifecycle s.interval w.moment
  match l.phase with
  | .passing =>
    let (summary, w) := w.pass
    ((l.finish s.cooldown w.moment summary.isNone).check s.lifecycle s.interval w.moment, w)
  | _ => (l, w)

/-- A loop goes on until it pauses beyond the moment or ends, for at most the given number of turns. -/
def turns : Nat → Clocked σ → Loop → Loop × Clocked σ
  | 0, w, l => (l, w)
  | n + 1, w, l =>
    let l := l.wakeAt w.moment
    if l.phase = .checking then
      let (l, w) := w.turn l
      turns n w l
    else (l, w)

/-- All loops of a list go on, one after the other. -/
def turnAll : List Loop → Clocked σ → List Loop × Clocked σ
  | [], w => ([], w)
  | l :: rest, w =>
    let (l, w) := turns (w.script.length + 1) w l
    let (rest, w) := turnAll rest w
    (l :: rest, w)

/-- Everything that is due at the present second is done; loops that have ended are forgotten. -/
def settle (w : Clocked σ) : Clocked σ :=
  let (loops, w) := turnAll w.scheduler.loops w
  { w with scheduler := { w.scheduler with loops := loops.filter fun l => l.phase ≠ .ended } }

/-- Let seconds pass, from the present one on. -/
def advance : Nat → Clocked σ → Clocked σ
  | 0, w => w.settle
  | n + 1, w =>
    let w := w.settle
    advance n { w with elapsed := w.elapsed + 1 }

end Clocked

end Vigil

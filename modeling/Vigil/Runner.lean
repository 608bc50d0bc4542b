import Vigil.Dispatch
import Vigil.Metrics
import Vigil.Series.Plan
import Vigil.Valuation

/-!
# Running alarms

A run evaluates the condition of an alarm over its window. When the condition changes the state of the
alarm, the store is told first and the outputs after it; the store's refusal ends the matter. Too few
points are passed over, an error of the condition is told to the outputs, any other failure changes
nothing. Whatever happened, the time of the run is noted and the run is counted.

Alarms are run one after the other, and what happens to one stays with it.
-/

namespace Vigil

/-- What happened to an alarm in a run. -/
inductive Outcome where
  | fired
  | cleared
  | unchanged
  | skipped
  | errored
  | failed
  deriving DecidableEq, Repr

def Outcome.text : Outcome → String
  | .fired => "fired"
  | .cleared => "cleared"
  | .unchanged => "unchanged"
  | .skipped => "skipped"
  | .errored => "errored"
  | .failed => "failed"

/-- What happened in one pass over alarms, in the order in which they were run. -/
structure Summary where
  outcomes : List (Uuid × Outcome)
  deriving DecidableEq, Repr

namespace Summary

def size (s : Summary) : Nat := s.outcomes.length

def isEmpty (s : Summary) : Bool := s.outcomes.isEmpty

def count (s : Summary) (o : Outcome) : Nat :=
  (s.outcomes.filter fun x => x.2 = o).length

end Summary

section Reading

variable {σ : Type} [Repository σ]

/-- The batch of a request for `n` points between two times, read at the time `now`. -/
def Reader.read (r : Reader) (store : σ) (source : Source) (filters : List Filter)
    (start stop : Instant) (n : Nat) (now : Instant) : Except AlarmError Batch := do
  let query ← r.plan source filters start stop n now
  let series ← Repository.query store query
  Batch.assemble filters series

/-- Evaluate the condition of an alarm over the window that ends now. The clock is looked at again when
the read is planned, and may have moved on by then. -/
def Alarm.valuate (a : Alarm) (r : Reader) (store : σ) (now : Instant) (later : Instant := now) :
    Except AlarmError Valuation := do
  let expression ← a.expression
  let (start, stop) := a.window now
  let batch ← r.read store (.group a.group) a.rule.filters start stop a.rule.trigger later
  Valuation.ofBatch expression batch a.rule.trigger

end Reading

/-- What runs work on. -/
structure Engine (σ : Type) where
  store : σ
  network : Courier
  metrics : Metrics

namespace Engine

variable {σ : Type}

def count (e : Engine σ) (c : Counter) : Engine σ :=
  { e with metrics := e.metrics.increase c }

variable [Repository σ]

/-- Tell the outputs of an alarm, as far as they can be looked up. -/
def tell (e : Engine σ) (a : Alarm) (event : Event) (values : Named Float) (error : Option String)
    (now : Instant) : Engine σ :=
  match Occasion.dispatch ⟨a, event, values, error, now⟩ now (e.store, e.network) with
  | .ok (_, (store, network)) => { e with store, network }
  | .error _ => e

/-- Ask the store for the change of state that a transition is. -/
def change (store : σ) (a : Alarm) (v : Valuation) (now : Instant) :
    Transition → Except AlarmError (Outcome × σ)
  | .fire => (Repository.fire store a.id (Valuation.valuesText v.values) now).map fun answer =>
    (.fired, answer.2)
  | _ => (Repository.clear store a.id now).map fun answer => (.cleared, answer.2)

/-- The counter of the changes that an event tells of. -/
def counter : Event → Counter
  | .fire => .fired
  | _ => .cleared

/-- Change the state of an alarm as its condition says, and tell of it. -/
def apply (e : Engine σ) (a : Alarm) (v : Valuation) (now : Instant) : Outcome × Engine σ :=
  let transition := a.state.transition v.fired
  match transition.event? with
  | none => (.unchanged, e)
  | some event =>
    match change e.store a v now transition with
    | .error _ => (.failed, e)
    | .ok (outcome, store) =>
      (outcome, (({ e with store }.tell a event v.values none now).count (counter event)).count .notified)

theorem apply_eq (e : Engine σ) (a : Alarm) (v : Valuation) (now : Instant) :
    e.apply a v now =
      match a.state.transition v.fired with
      | .stay => (.unchanged, e)
      | .fire =>
        match Repository.fire e.store a.id (Valuation.valuesText v.values) now with
        | .error _ => (.failed, e)
        | .ok (_, store) =>
          (.fired, (({ e with store }.tell a .fire v.values none now).count .fired).count .notified)
      | .clear =>
        match Repository.clear e.store a.id now with
        | .error _ => (.failed, e)
        | .ok (_, store) =>
          (.cleared,
            (({ e with store }.tell a .clear v.values none now).count .cleared).count .notified) := by
  unfold apply
  cases a.state.transition v.fired with
  | stay => rfl
  | fire =>
    dsimp only [change, Transition.event?]
    cases Repository.fire e.store a.id (Valuation.valuesText v.values) now <;> rfl
  | clear =>
    dsimp only [change, Transition.event?]
    cases Repository.clear e.store a.id now <;> rfl

/-- What a valuation, or its failure, does. -/
def react (e : Engine σ) (a : Alarm) (now : Instant) :
    Except AlarmError Valuation → Outcome × Engine σ
  | .ok v => e.apply a v now
  | .error cause =>
    if cause.isSoft then (.skipped, e)
    else if cause.isUserFacing then
      (.errored, ((e.tell a .error .empty (some cause.message) now).count .errored).count .notified)
    else (.failed, e)

/-- Note the time of a run, as far as the store takes it. -/
def markRun (e : Engine σ) (id : Uuid) (now : Instant) : Engine σ :=
  match Repository.markRun e.store id now with
  | .ok store => { e with store }
  | .error _ => e

/-- Act on what the evaluation of an alarm gave, and take note of the run. -/
def conclude (e : Engine σ) (a : Alarm) (now : Instant) (result : Except AlarmError Valuation) :
    Outcome × Engine σ :=
  let (outcome, e) := e.react a now result
  (outcome, (e.count .evaluated).markRun a.id now)

/-- Run one alarm while the clock stands still. -/
def run (e : Engine σ) (r : Reader) (a : Alarm) (now : Instant) : Outcome × Engine σ :=
  e.conclude a now (a.valuate r e.store now)

def runAll (r : Reader) (now : Instant) : List Alarm → Engine σ → List (Uuid × Outcome) × Engine σ
  | [], e => ([], e)
  | a :: rest, e =>
    let (outcome, e) := e.run r a now
    let (outcomes, e) := runAll r now rest e
    ((a.id, outcome) :: outcomes, e)

def runDue (e : Engine σ) (r : Reader) (minInterval : Span) (now : Instant) :
    Except AlarmError Summary × Engine σ :=
  match Repository.dueAlarms e.store minInterval now with
  | .error cause => (.error cause, e)
  | .ok alarms =>
    let (outcomes, e) := runAll r now alarms e
    (.ok ⟨outcomes⟩, e)

end Engine

end Vigil

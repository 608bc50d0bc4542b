import Mathlib.Logic.Function.Iterate
import Vigil.Proofs.Store.Guards

/-!
# A run, step by step

A run of an alarm is cut at its calls on the store, so that other runs may come in between: it takes
what the evaluation gave, asks the store for the change of state, looks up the outputs, pushes to one
output after the other, and at last counts and notes the time. The alarm is a copy that was taken
earlier and may be out of date. Taken in one go, the steps are the run.
-/

namespace Vigil

/-- What a run does that others can notice. -/
inductive Act where
  | changed (event : Event)
  | refused (event : Event)
  | told (event : Event)
  | pushed (event : Event) (output : Uuid)
  | counted (c : Counter)
  deriving DecidableEq

/-- What a run does next. -/
inductive Stage where
  | evaluate
  | change (v : Valuation)
  | tell (event : Event) (values : Named Float) (error : Option String) (outcome : Outcome)
  | push (notice : Notice) (time : Instant) (outputs : List Output) (outcome : Outcome)
  | finish (outcome : Outcome)
  | ended (outcome : Outcome)

/-- What is counted for an outcome, besides the evaluation. -/
def Outcome.counters : Outcome → List Counter
  | fired => [.fired, .notified]
  | cleared => [.cleared, .notified]
  | errored => [.errored, .notified]
  | unchanged | skipped | failed => []

namespace Stage

def afterEvaluation : Except AlarmError Valuation → Stage
  | .ok v => change v
  | .error cause =>
    if cause.isSoft then finish .skipped
    else if cause.isUserFacing then tell .error .empty (some cause.message) .errored
    else finish .failed

variable {σ : Type} [Repository σ]

/-- Ask the store for the change of state that a valuation calls for. -/
def afterChange (a : Alarm) (v : Valuation) (now : Instant) (e : Engine σ) :
    List Act × Stage × Engine σ :=
  match a.state.transition v.fired with
  | .stay => ([], finish .unchanged, e)
  | .fire =>
    match Repository.fire e.store a.id (Valuation.valuesText v.values) now with
    | .error _ => ([.refused .fire], finish .failed, e)
    | .ok (_, store) => ([.changed .fire], tell .fire v.values none .fired, { e with store })
  | .clear =>
    match Repository.clear e.store a.id now with
    | .error _ => ([.refused .clear], finish .failed, e)
    | .ok (_, store) => ([.changed .clear], tell .clear v.values none .cleared, { e with store })

/-- One step of a run over a copy of an alarm: what it does, what comes next, and what it leaves. -/
def advance (a : Alarm) (result : Except AlarmError Valuation) (now : Instant) (e : Engine σ) :
    Stage → List Act × Stage × Engine σ
  | evaluate => ([], afterEvaluation result, e)
  | change v => afterChange a v now e
  | tell event values error outcome =>
    match Repository.outputs e.store a.id (.ofEvent event) with
    | .error _ => ([.told event], finish outcome, e)
    | .ok outputs =>
      ([.told event], push (Occasion.notice ⟨a, event, values, error, now⟩) now outputs outcome, e)
  | push _ _ [] outcome => ([], finish outcome, e)
  | push notice time (o :: rest) outcome =>
    let (result, network) := o.push notice e.network time now
    ([.pushed notice.event o.id], push notice time rest outcome,
      { e with store := Dispatch.record e.store (.ofResult o.id result) time, network })
  | finish outcome =>
    (outcome.counters.map Act.counted ++ [.counted .evaluated], ended outcome,
      ((outcome.counters.foldl Engine.count e).count .evaluated).markRun a.id now)
  | ended outcome => ([], ended outcome, e)

def next (a : Alarm) (result : Except AlarmError Valuation) (now : Instant) (w : Stage × Engine σ) :
    Stage × Engine σ :=
  (w.1.advance a result now w.2).2

def Leads (a : Alarm) (result : Except AlarmError Valuation) (now : Instant) (w w' : Stage × Engine σ) :
    Prop :=
  ∃ n, (next a result now)^[n] w = w'

section Alone

variable {a : Alarm} {result : Except AlarmError Valuation} {now : Instant}
  {w w' w'' : Stage × Engine σ} {outcome : Outcome}

theorem Leads.refl (w : Stage × Engine σ) : Leads a result now w w := ⟨0, rfl⟩

theorem Leads.head (h : Leads a result now (next a result now w) w') : Leads a result now w w' := by
  obtain ⟨n, hn⟩ := h
  exact ⟨n + 1, hn⟩

theorem Leads.trans (h : Leads a result now w w') (h' : Leads a result now w' w'') :
    Leads a result now w w'' := by
  obtain ⟨n, rfl⟩ := h
  obtain ⟨n', rfl⟩ := h'
  exact ⟨n' + n, Function.iterate_add_apply _ _ _ _⟩

theorem leads_push (notice : Notice) (outputs : List Output) (outcome : Outcome) (e : Engine σ) :
    Leads a result now (push notice now outputs outcome, e)
      (finish outcome, { e with
        store := (Dispatch.pushAll notice now now outputs (e.store, e.network)).2.1
        network := (Dispatch.pushAll notice now now outputs (e.store, e.network)).2.2 }) := by
  induction outputs generalizing e with
  | nil => exact .head (.refl _)
  | cons o rest ih => exact .head (ih _)

/-- Telling and pushing are what an engine does in one go. -/
theorem leads_tell (event : Event) (values : Named Float) (error : Option String)
    (outcome : Outcome) (e : Engine σ) :
    Leads a result now (tell event values error outcome, e)
      (finish outcome, e.tell a event values error now) := by
  refine .head ?_
  cases houtputs : Repository.outputs e.store a.id (.ofEvent event) with
  | error cause =>
    have hnext : next a result now (tell event values error outcome, e) = (finish outcome, e) := by
      simp only [next, advance, houtputs]
    have htell : e.tell a event values error now = e := by
      simp only [Engine.tell, Occasion.dispatch, houtputs]
      rfl
    rw [hnext, htell]
    exact .refl _
  | ok outputs =>
    have hnext : next a result now (tell event values error outcome, e) =
        (push (Occasion.notice ⟨a, event, values, error, now⟩) now outputs outcome, e) := by
      simp only [next, advance, houtputs]
    rw [hnext, Engine.tell, Occasion.dispatch, houtputs]
    exact leads_push _ outputs outcome e

theorem leads_finish {e e' : Engine σ} (h : outcome.counters.foldl Engine.count e = e') :
    Leads a result now (finish outcome, e)
      (ended outcome, (e'.count .evaluated).markRun a.id now) := by
  subst h
  exact .head (.refl _)

/-- What an engine does about a result in one go, a run does up to the counting. -/
theorem leads_apply (v : Valuation) (e : Engine σ) :
    ∃ e' : Engine σ, Leads a result now (change v, e) (finish (e.apply a v now).1, e') ∧
      (e.apply a v now).1.counters.foldl Engine.count e' = (e.apply a v now).2 := by
  rw [Engine.apply_eq]
  cases hmove : a.state.transition v.fired with
  | stay =>
    refine ⟨e, .head ?_, rfl⟩
    simp only [next, advance, afterChange, hmove]
    exact .refl _
  | fire =>
    cases hfire : Repository.fire e.store a.id (Valuation.valuesText v.values) now with
    | error cause =>
      refine ⟨e, .head ?_, rfl⟩
      simp only [next, advance, afterChange, hmove, hfire]
      exact .refl _
    | ok answer =>
      refine ⟨_, .head ?_, rfl⟩
      simp only [next, advance, afterChange, hmove, hfire]
      exact leads_tell .fire v.values none .fired { e with store := answer.2 }
  | clear =>
    cases hclear : Repository.clear e.store a.id now with
    | error cause =>
      refine ⟨e, .head ?_, rfl⟩
      simp only [next, advance, afterChange, hmove, hclear]
      exact .refl _
    | ok answer =>
      refine ⟨_, .head ?_, rfl⟩
      simp only [next, advance, afterChange, hmove, hclear]
      exact leads_tell .clear v.values none .cleared { e with store := answer.2 }

theorem leads_react (e : Engine σ) :
    ∃ e' : Engine σ, Leads a result now (evaluate, e) (finish (e.react a now result).1, e') ∧
      (e.react a now result).1.counters.foldl Engine.count e' = (e.react a now result).2 := by
  cases result with
  | ok v =>
    obtain ⟨e', hlead, hcount⟩ := leads_apply v e
    exact ⟨e', .head hlead, hcount⟩
  | error cause =>
    have hnext : next a (.error cause) now (evaluate, e) = (afterEvaluation (.error cause), e) := rfl
    have hreact : e.react a now (.error cause) =
        if cause.isSoft then (.skipped, e)
        else if cause.isUserFacing then
          (.errored, ((e.tell a .error .empty (some cause.message) now).count .errored).count .notified)
        else (.failed, e) := rfl
    rw [hreact]
    cases hsoft : cause.isSoft with
    | true =>
      refine ⟨e, .head ?_, rfl⟩
      simp only [hnext, afterEvaluation, hsoft]
      exact .refl _
    | false =>
      cases hfacing : cause.isUserFacing with
      | true =>
        refine ⟨_, .head ?_, rfl⟩
        simp only [hnext, afterEvaluation, hsoft, hfacing]
        exact leads_tell .error .empty (some cause.message) .errored e
      | false =>
        refine ⟨e, .head ?_, rfl⟩
        simp only [hnext, afterEvaluation, hsoft, hfacing]
        exact .refl _

theorem leads_conclude (e : Engine σ) :
    Leads a result now (evaluate, e)
      (ended (e.conclude a now result).1, (e.conclude a now result).2) := by
  obtain ⟨e', hreact, hcount⟩ := leads_react e
  exact hreact.trans (leads_finish hcount)

/-- The steps of a run that is not interrupted are the run. -/
theorem leads_run (e : Engine σ) (r : Reader) :
    Leads a (a.valuate r e.store now) now (evaluate, e)
      (ended (e.run r a now).1, (e.run r a now).2) :=
  leads_conclude e

end Alone

end Stage

end Vigil

import Vigil.Store.Repository
import Vigil.Valuation

/-!
# Dispatching an event

An event of an alarm is told to every output of the alarm that is enabled and wants to hear of it, in
the order of their creation. Each output renders its own template and delivers through its own
channel; whether one fails does not concern the others. Every attempt is recorded, as far as the store
takes it. Only when the outputs cannot be looked up nothing is told at all.
-/

namespace Vigil

/-- What became of one output; the message is empty when it was delivered. -/
structure PushOutcome where
  outputId : Uuid
  success : Bool
  message : String
  deriving DecidableEq, Repr

/-- What an attempt to deliver means for an output. -/
def PushOutcome.ofResult (id : Uuid) : Except DeliveryError Unit → PushOutcome
  | .ok () => ⟨id, true, ""⟩
  | .error cause => ⟨id, false, cause.message⟩

@[simp] theorem PushOutcome.outputId_ofResult (id : Uuid) (result : Except DeliveryError Unit) :
    (ofResult id result).outputId = id := by
  cases result <;> rfl

/-- The name of the transaction in which an output tells of an event at a time. -/
def Output.transaction (o : Output) (time : Instant) : String :=
  s!"{String.ofList o.id.digits}{time.nanos}"

/-- What messages are made with and go out over. -/
structure Courier extends Network where
  renderer : Renderer

/-- The courier after its requests have been taken note of. -/
def Courier.forget (p : Courier) : Courier :=
  { p with toNetwork := p.toNetwork.forget }

/-- Render the template of an output and deliver the message. -/
def Output.push (o : Output) (notice : Notice) (p : Courier) (time clock : Instant) :
    Except DeliveryError Unit × Courier :=
  match notice.message p.renderer (o.templates.get notice.event) with
  | .error cause => (.error (.template cause), p)
  | .ok message =>
    let (result, network) :=
      o.channel.service.deliver p.toNetwork (o.transaction time) message clock
    (result, { p with toNetwork := network })

/-- An event of an alarm, with what is to be told of it. -/
structure Occasion where
  alarm : Alarm
  event : Event
  values : Named Float
  error : Option String
  time : Instant

def Occasion.notice (c : Occasion) : Notice :=
  .ofEvent c.alarm c.event (Valuation.valuesText c.values) c.error c.time

namespace Dispatch

variable {σ : Type} [Repository σ]

/-- Record what became of an output; a store that does not take it stays as it is. -/
def record (store : σ) (outcome : PushOutcome) (time : Instant) : σ :=
  match Repository.markPushed store outcome.outputId outcome.success outcome.message time with
  | .ok (_, after) => after
  | .error _ => store

def pushAll (notice : Notice) (time clock : Instant) :
    List Output → σ × Courier → List PushOutcome × (σ × Courier)
  | [], world => ([], world)
  | o :: rest, (store, p) =>
    let (result, p) := o.push notice p time clock
    let outcome := PushOutcome.ofResult o.id result
    let (outcomes, world) := pushAll notice time clock rest (record store outcome time, p)
    (outcome :: outcomes, world)

end Dispatch

/-- Tell the outputs of an occasion, while the clock shows a time of its own. -/
def Occasion.dispatch {σ : Type} [Repository σ] (c : Occasion) (clock : Instant)
    (world : σ × Courier) : Except AlarmError (List PushOutcome × (σ × Courier)) := do
  let outputs ← Repository.outputs world.1 c.alarm.id (.ofEvent c.event)
  return Dispatch.pushAll c.notice c.time clock outputs world

end Vigil

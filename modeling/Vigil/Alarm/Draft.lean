import Vigil.Alarm
import Vigil.Condition
import Vigil.Series.Query
import Vigil.Series.Retention

/-!
# Defining alarms

What a user says about a new alarm. It becomes an alarm when it has a name, when its interval and its
trigger are within bounds, when its condition can be read and names known functions only, and when the
expression of the condition compiles. The first of these that fails is reported.
-/

namespace Vigil

/-- The definition of a new alarm. -/
structure Draft where
  name : String
  info : String
  group : String
  message : String
  enabled : Bool
  interval : Nat
  trigger : Nat
  condition : String
  deriving DecidableEq, Repr

namespace Draft

/-- The longest interval between evaluations, in seconds: one year. -/
def maxInterval : Nat := 365 * 24 * 60 * 60

def rule (d : Draft) : Except ConditionError (Rule × Expression) := do
  let condition ← Condition.parse d.condition
  condition.filters.forM Filter.validate
  match Expression.compile condition.expression with
  | .error cause => throw (.noExpression d.condition cause)
  | .ok expression => return (⟨condition.filters, condition.expression, d.trigger⟩, expression)

/-- The alarm of a definition, made at a time. -/
def alarm (d : Draft) (owner : String) (id : Uuid) (now : Instant) : Except AlarmError Alarm :=
  if Text.isBlankText d.name then .error (.invalid .nameMissing)
  else if d.interval = 0 ∨ maxInterval < d.interval then
    .error (.invalid (.intervalOutOfBounds maxInterval))
  else if d.trigger = 0 ∨ maxPointsCap < d.trigger then
    .error (.invalid (.triggerOutOfBounds maxPointsCap))
  else
    match d.rule with
    | .error cause => .error (.condition cause)
    | .ok (rule, expression) =>
      .ok {
        id, owner, rule
        name := d.name
        info := d.info
        message := d.message
        group := d.group
        enabled := d.enabled
        fired := false
        runInterval := .ofSeconds d.interval
        lastRun := now
        createdAt := now
        updatedAt := now
        history := []
        compiled := some expression }

end Draft

end Vigil

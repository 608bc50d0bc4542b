import Vigil.Expression.Evaluation
import Vigil.Filter
import Vigil.Time.Span
import Vigil.Uuid

/-!
# Failures

Everything that can go wrong with an alarm, by cause. Causes fall into three classes: too few points
yet is soft and passed over in silence; a broken condition or definition is the owner's to mend and is
told to the owner; all others are internal. Every cause has its words in `message`.
-/

namespace Vigil

open Expression (SyntaxError EvaluationError)

/-- Why a condition is refused. -/
inductive ConditionError where
  | noFilters
  | notInteger (digits : String)
  | ambiguous (first second : Filter)
  | unknownSelector (name : String)
  | unknownTransformation (name : String)
  | parameterNotTaken (transformation : String)
  | parameterNotPositive (transformation : String) (param : Int)
  | noExpression (condition : String) (cause : SyntaxError)
  | stated (reason : String)
  deriving DecidableEq, Repr

/-- Why a definition or a request is refused. -/
inductive ValidationError where
  | nameMissing
  | intervalOutOfBounds (longest : Nat)
  | triggerOutOfBounds (most : Nat)
  | triggerZero
  | rangeReversed
  | noPolicies
  | policiesOutOfOrder (first second : String)
  | tickTooShort (least got : Span)
  | stated (reason : String)
  deriving DecidableEq

/-- What was looked for in vain. -/
inductive Missing where
  | alarm (id : Uuid)
  | openEntry (alarm : Uuid)
  | channel (id : Uuid)
  | output (id : Uuid)
  | stated (what : String)
  deriving DecidableEq, Repr

/-- Why records could not be read or kept. -/
inductive StorageError where
  | connectionFailed (detail : String)
  | queryFailed (detail : String)
  | migrationFailed (detail : String)
  | undecodable (detail : String)
  | fileFailed (detail : String)
  deriving DecidableEq, Repr

/-- Why a call on an alarm failed. -/
inductive AlarmError where
  | condition (cause : ConditionError)
  | insufficientData (needed available : Nat)
  | syntaxError (cause : SyntaxError)
  | evaluation (cause : EvaluationError)
  | uncovered (requested : Span)
  | inconsistent (expected actual : Nat)
  | conflict (alarm : String)
  | notFound (what : Missing)
  | invalid (cause : ValidationError)
  | storage (cause : StorageError)
  deriving DecidableEq

def ConditionError.message : ConditionError → String
  | .noFilters => "filters can't be empty"
  | .notInteger digits => s!"'{digits}' not integer"
  | .ambiguous first second =>
    s!"'{first.text}' and '{second.text}' both resolve to '{second.identifier}'"
  | .unknownSelector name => s!"unknown selector '{name}'"
  | .unknownTransformation name => s!"unknown transformation '{name}'"
  | .parameterNotTaken transformation => s!"'{transformation}' does not take a parameter"
  | .parameterNotPositive transformation param =>
    s!"'{transformation}' parameter must be positive, got {param}"
  | .noExpression condition cause => s!"'{condition}': {cause.message}"
  | .stated reason => reason

def ValidationError.message : ValidationError → String
  | .nameMissing => "name is required"
  | .intervalOutOfBounds longest => s!"interval must be between 1 and {longest} seconds"
  | .triggerOutOfBounds most => s!"trigger must be between 1 and {most}"
  | .triggerZero => "trigger must be at least 1"
  | .rangeReversed => "query time range has to be positive"
  | .noPolicies => "no retention policies defined"
  | .policiesOutOfOrder first second => s!"retention '{first}' must be shorter than '{second}'"
  | .tickTooShort least got => s!"alarm interval must be at least {least.text}, got {got.text}"
  | .stated reason => reason

def Missing.text : Missing → String
  | .alarm id => s!"alarm {id.text}"
  | .openEntry id => s!"open history entry for alarm {id.text}"
  | .channel id => s!"output channel {id.text}"
  | .output id => s!"output {id.text}"
  | .stated what => what

def StorageError.message : StorageError → String
  | .connectionFailed detail => s!"failed to connect to storage backend: {detail}"
  | .queryFailed detail => s!"storage query failed: {detail}"
  | .migrationFailed detail => s!"database migration failed: {detail}"
  | .undecodable detail => s!"record serialization error: {detail}"
  | .fileFailed detail => s!"I/O error: {detail}"

/-- The failure has a cause of its own, below the storage. -/
def StorageError.hasSource : StorageError → Bool
  | .fileFailed _ => true
  | _ => false

namespace AlarmError

def message : AlarmError → String
  | condition cause => s!"invalid condition: {cause.message}"
  | insufficientData needed available =>
    s!"alarm has not enough measurement points: need {needed}, got {available}"
  | syntaxError cause => s!"failed to evaluate alarm state: {cause.message}"
  | evaluation cause => s!"failed to evaluate alarm state: {cause.message}"
  | uncovered requested => s!"no retention policy covers a range of {requested.text}"
  | inconsistent expected actual =>
    s!"mismatch of inputs and results: {expected} filters, {actual} series"
  | conflict alarm =>
    s!"alarm {alarm} not cleared yet, cannot fire before clearing the open event"
  | notFound what => s!"{what.text} not found"
  | invalid cause => s!"invalid alarm: {cause.message}"
  | storage cause => cause.message

/-- There are too few points yet. -/
def isSoft : AlarmError → Bool
  | insufficientData .. => true
  | _ => false

/-- The owner of the alarm can mend it. -/
def isUserFacing : AlarmError → Bool
  | condition _ | syntaxError _ | evaluation _ | invalid _ => true
  | _ => false

end AlarmError

end Vigil

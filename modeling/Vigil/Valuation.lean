import Vigil.Decimal.Fixed
import Vigil.Expression
import Vigil.Series.Batch

/-!
# Debounced evaluation

A condition holds when it holds at each of the last points of every series, as many as its trigger
says, from the oldest on. The first point at which it does not hold, or cannot be evaluated, decides.
When it holds, the last value of every series is reported.
-/

namespace Vigil

/-- The outcome of an evaluation. -/
structure Valuation where
  fired : Bool
  values : Named Float

namespace Valuation

/-- The condition does not hold. -/
def quiet : Valuation := ⟨false, .empty⟩

/-- The number of points that every series has. -/
def available (batch : Batch) : Nat :=
  match batch.values.map List.length with
  | [] => 0
  | n :: rest => rest.foldl min n

/-- The value of a name at place `i` of the last `limit` points of its series. -/
def lookup (batch : Batch) (limit i : Nat) (name : String) : Option Float := do
  let series ← batch.get? name
  let p ← series[series.length - limit + i]?
  return p.value

/-- The condition holds at all the given places; the first that decides otherwise counts. -/
def holdsAt (e : Expression) (batch : Batch) (limit : Nat) :
    List Nat → Except Expression.EvaluationError Bool
  | [] => .ok true
  | i :: rest => do
    if ← e.evaluateBool (lookup batch limit i) then holdsAt e batch limit rest else return false

def lastValues (batch : Batch) : Named Float :=
  .ofList (batch.entries.filterMap fun (name, series) => series.getLast?.map fun p => (name, p.value))

/-- Evaluate a condition over the last `limit` points of every series. -/
def ofBatch (e : Expression) (batch : Batch) (limit : Nat) : Except AlarmError Valuation :=
  if limit = 0 then .error (.invalid .triggerZero)
  else if available batch < limit then .error (.insufficientData limit (available batch))
  else
    match holdsAt e batch limit (List.range limit) with
    | .error cause => .error (.evaluation cause)
    | .ok false => .ok quiet
    | .ok true => .ok ⟨true, lastValues batch⟩

/-- The values with two decimal places, in the order of their names. -/
def valuesText (values : Named Float) : String :=
  " ".intercalate (values.entries.map fun (name, value) => s!"{name}={Decimal.fixed 2 value}")

end Valuation

end Vigil

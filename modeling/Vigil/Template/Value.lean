import Vigil.Decimal.Shortest
import Vigil.Template.Whole

/-!
# Values in templates

What a template computes with. A name without a value is undefined: it prints as nothing and counts as
false. Whole numbers, other numbers and truth values mix in sums and comparisons; texts join with
texts. Joining with `~` takes the printed form of anything.
-/

namespace Vigil.Template

/-- A value in a template. -/
inductive Value where
  | undefined
  | none
  | bool (value : Bool)
  | int (value : Whole)
  | float (value : Float)
  | string (text : String)

namespace Value

/-- The printed form of a number that is not whole by kind: it always shows a point. -/
def floatText (x : Float) : String :=
  let t := Decimal.text x
  if x.isFinite && !t.contains '.' then t ++ ".0" else t

def text : Value → String
  | undefined => ""
  | none => "None"
  | bool true => "True"
  | bool false => "False"
  | int n => toString n.value
  | float x => floatText x
  | string t => t

/-- The value counts as true in a condition. -/
def holds : Value → Bool
  | undefined | none => false
  | bool b => b
  | int n => n.value != 0
  | float x => x != 0.0
  | string t => !t.isEmpty

def whole? : Value → Option Whole
  | bool b => some (.ofBool b)
  | int n => some n
  | _ => Option.none

def float? : Value → Option Float
  | float x => some x
  | v => v.whole?.map Whole.toFloat

/-- The number that a value stands for, unless it has to be rounded. -/
def exactFloat? : Value → Option Float
  | float x => some x
  | v => v.whole?.bind Whole.exactFloat?

/-- One of two values is not whole by kind. -/
def anyFloat : Value → Value → Bool
  | float _, _ => true
  | _, float _ => true
  | _, _ => false

def add (a b : Value) : Option Value :=
  match a, b with
  | string s, string t => some (string (s ++ t))
  | _, _ =>
    if anyFloat a b then do
      return float ((← a.float?) + (← b.float?))
    else do
      return int (← (← a.whole?).add? (← b.whole?))

def negate : Value → Option Value
  | int n => n.negate?.map int
  | float x => some (float (-x))
  | _ => Option.none

def equals (a b : Value) : Bool :=
  match a, b with
  | undefined, undefined => true
  | none, none => true
  | string s, string t => s == t
  | _, _ =>
    if anyFloat a b then
      match a.exactFloat?, b.exactFloat? with
      | some x, some y => x == y
      | _, _ => false
    else
      match a.whole?, b.whole? with
      | some m, some n => m.value == n.value
      | _, _ => false

end Value

end Vigil.Template

import Vigil.Expression.Tree

/-!
# Evaluating a tree

Numbers and truth values are kept apart: arithmetic and order take numbers, connectives and negation
take truth values, equality takes two of a kind. The left operand is evaluated first, and its failure
is the failure of the whole. Evaluation also tells which variables it asked for, in the order of
asking; a connective that its left operand decides asks for nothing more.
-/

namespace Vigil.Expression

/-- The two kinds of values. -/
inductive Kind where
  | number
  | truth
  deriving Repr, DecidableEq

def Kind.text : Kind → String
  | .number => "a number"
  | .truth => "a boolean"

/-- What an expression evaluates to. -/
inductive Value where
  | number (value : Float)
  | truth (value : Bool)
  deriving Repr

def Value.kind : Value → Kind
  | .number _ => .number
  | .truth _ => .truth

/-- Why an expression has no value, or not the one that is wanted. -/
inductive EvaluationError where
  | unknownVariable (name : String)
  | typeMismatch (operator : String) (operand : Kind)
  | notBoolean
  deriving Repr, DecidableEq

def EvaluationError.message : EvaluationError → String
  | .unknownVariable name => s!"no parameter '{name}' found"
  | .typeMismatch operator operand => s!"cannot apply '{operator}' to {operand.text}"
  | .notBoolean => "expression evaluated to a number, expected a boolean"

def Operator.onNumbers (a b : Float) : Operator → Value
  | .add => .number (a + b)
  | .sub => .number (a - b)
  | .mul => .number (a * b)
  | .div => .number (a / b)
  | .rem => .number (Decimal.remainder a b)
  | .greater => .truth (decide (b < a))
  | .greaterEqual => .truth (decide (b ≤ a))
  | .less => .truth (decide (a < b))
  | .lessEqual => .truth (decide (a ≤ b))
  | .equal => .truth (a == b)
  | .notEqual => .truth (a != b)

def Operator.evaluate (op : Operator) : Value → Value → Except EvaluationError Value
  | .number a, .number b => .ok (op.onNumbers a b)
  | .truth a, .truth b =>
    match op with
    | .equal => .ok (.truth (a == b))
    | .notEqual => .ok (.truth (a != b))
    | _ => .error (.typeMismatch op.symbol .truth)
  | _, _ => .error (.typeMismatch op.symbol .truth)

def Value.negate : Value → Except EvaluationError Value
  | .number x => .ok (.number (-x))
  | .truth _ => .error (.typeMismatch "-" .truth)

def Value.not : Value → Except EvaluationError Value
  | .truth b => .ok (.truth !b)
  | .number _ => .error (.typeMismatch "!" .number)

/-- The truth value that a connective wants of its operand. -/
def Connective.operand (op : Connective) : Value → Except EvaluationError Bool
  | .truth b => .ok b
  | .number _ => .error (.typeMismatch op.symbol .number)

/-- The left operand alone decides the value of the connective. -/
def Connective.decides : Connective → Bool → Bool
  | .and, left => !left
  | .or, left => left

/-- The variables asked for, and the value or the failure. -/
abbrev Outcome := List String × Except EvaluationError Value

/-- The outcome of a step that follows on a value. -/
def Outcome.andThen (o : Outcome) (next : Value → Outcome) : Outcome :=
  match o with
  | (asked, .error e) => (asked, .error e)
  | (asked, .ok v) =>
    let (more, result) := next v
    (asked ++ more, result)

/-- Evaluate a tree with variables looked up as given. -/
def Tree.run (lookup : String → Option Float) : Tree → Outcome
  | .number value => ([], .ok (.number value))
  | .truth value => ([], .ok (.truth value))
  | .variable name =>
    ([name], match lookup name with
      | some value => .ok (.number value)
      | none => .error (.unknownVariable name))
  | .negate operand => Outcome.andThen (operand.run lookup) fun v => ([], v.negate)
  | .not operand => Outcome.andThen (operand.run lookup) fun v => ([], v.not)
  | .apply op left right =>
    Outcome.andThen (left.run lookup) fun a =>
      Outcome.andThen (right.run lookup) fun b => ([], op.evaluate a b)
  | .connect op left right =>
    Outcome.andThen (left.run lookup) fun a =>
      match op.operand a with
      | .error e => ([], .error e)
      | .ok b =>
        if op.decides b then ([], .ok (.truth b))
        else Outcome.andThen (right.run lookup) fun c => ([], (op.operand c).map .truth)

def Tree.evaluate (lookup : String → Option Float) (t : Tree) : Except EvaluationError Value :=
  (t.run lookup).2

/-- The variables that the evaluation asks for, in order and as often as it asks. -/
def Tree.lookups (lookup : String → Option Float) (t : Tree) : List String :=
  (t.run lookup).1

/-- The truth value of a tree that must have one. -/
def Tree.evaluateBool (lookup : String → Option Float) (t : Tree) :
    Except EvaluationError Bool := do
  match ← t.evaluate lookup with
  | .truth b => return b
  | .number _ => .error .notBoolean

end Vigil.Expression

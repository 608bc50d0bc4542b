import Vigil.Template.Parser
import Vigil.Text.Case

/-!
# Rendering a template

The outputs of a template are printed in place, nothing is escaped. A filter takes the value before it
and its arguments; an unknown filter, too many arguments or an argument of the wrong kind fails the
whole. Parts that are not chosen are not evaluated.
-/

namespace Vigil.Template

/-- What a template is rendered with: the values of names, and the filter that rounds. -/
structure Scope where
  lookup : String → Value
  round : Float → Option Nat → String

/-- The number of decimal places that an argument asks for, if it asks for any. -/
def places? : Value → Option (Option Nat)
  | .undefined | .none => some none
  | .int n => if 0 ≤ n.value ∧ n.value < 4294967296 then some (some n.value.toNat) else none
  | .bool b => some (some (if b then 1 else 0))
  | .float x =>
    if 0 ≤ x && x < 4294967296.0 && x.floor == x then some (some x.toUInt64.toNat) else none
  | .string _ => none

/-- The number that a value is. Truth values are none. -/
def numeric? : Value → Option Float
  | .int n => some n.toFloat
  | .float x => some x
  | _ => none

/-- A choice that an argument makes; without a value it is no. -/
def choice? : Value → Option Bool
  | .undefined | .none => some false
  | .bool b => some b
  | _ => none

/-- An argument that may be left out, also by giving it no value. -/
def given? : Value → Option Value
  | .undefined | .none => none
  | v => some v

def trimChars (chars : List Char) (cs : List Char) : List Char :=
  ((cs.dropWhile chars.contains).reverse.dropWhile chars.contains).reverse

/-- A value, or the other one in place of no value and, where `blank` says so, of one that counts as
false. -/
def orElse (value other : Value) (blank : Bool) : Value :=
  match value with
  | .undefined => (given? other).getD (.string "")
  | _ => if blank && !value.holds then (given? other).getD (.string "") else value

def Scope.applyFilter (scope : Scope) (name : String) (value : Value) (args : List Value) : Option Value :=
  match name, args with
  | "upper", [] => some (.string (Text.upper value.text))
  | "lower", [] => some (.string (Text.lower value.text))
  | "trim", [] => some (.string (Text.trim value.text))
  | "trim", [chars] => some (.string (match given? chars with
    | some chars => String.ofList (trimChars chars.text.toList value.text.toList)
    | none => Text.trim value.text))
  | "length", [] =>
    match value with
    | .string t => some (.int ⟨.unsigned64, t.length⟩)
    | _ => none
  | "default", [] => some (orElse value .undefined false)
  | "default", [other] => some (orElse value other false)
  | "default", [other, blank] => (choice? blank).map (orElse value other)
  | "round", [] => (numeric? value).map fun x => .string (scope.round x none)
  | "round", [places] => do
    let x ← numeric? value
    let places ← places? places
    return .string (scope.round x places)
  | _, _ => none

mutual

def Expr.evaluate (scope : Scope) : Expr → Option Value
  | .literal v => some v
  | .variable name => some (scope.lookup name)
  | .negate e => do (← e.evaluate scope).negate
  | .add a b => do
    let x ← a.evaluate scope
    x.add (← b.evaluate scope)
  | .join a b => do
    let x ← a.evaluate scope
    let y ← b.evaluate scope
    return .string (x.text ++ y.text)
  | .equal first others => do
    let x ← first.evaluate scope
    return .bool (← evaluateEqual scope x others)
  | .filter name e args => do
    let x ← e.evaluate scope
    let values ← evaluateAll scope args
    scope.applyFilter name x values

def evaluateAll (scope : Scope) : List Expr → Option (List Value)
  | [] => some []
  | e :: rest => do
    let x ← e.evaluate scope
    let xs ← evaluateAll scope rest
    return x :: xs

/-- Every value is equal to the one before it. What follows two different values is not evaluated. -/
def evaluateEqual (scope : Scope) (x : Value) : List Expr → Option Bool
  | [] => some true
  | e :: rest => do
    let y ← e.evaluate scope
    if x.equals y then evaluateEqual scope y rest else some false

end

mutual

def Node.render (scope : Scope) : Node → Option String
  | .text text => some text
  | .output e => (e.evaluate scope).map Value.text
  | .branch condition yes no => do
    let v ← condition.evaluate scope
    if v.holds then renderAll scope yes else renderAll scope no

def renderAll (scope : Scope) : List Node → Option String
  | [] => some ""
  | node :: rest => do
    let t ← node.render scope
    let ts ← renderAll scope rest
    return t ++ ts

end

def render? (source : String) (scope : Scope) : Option String := do
  renderAll scope (← parse? source)

end Vigil.Template

import Vigil.Expression.Lexer
import Vigil.Failure
import Vigil.Text.Replace

/-!
# Conditions

A condition is an expression with filters in place of variables. Blanks do not count. Cut at the marks
of the operators, it falls into pieces; a piece in one of the two forms of a filter is one, a piece
that reads as a decimal is a number, and every other piece is dropped: it is reported, and left as it
stands. The filters give way to their identifiers, longest first, so that none is replaced inside
another. Two filters of one condition must not share an identifier.
-/

namespace Vigil

open Vigil.Text (isBlank isWordChar isAsciiLetter isAsciiDigit isDecimalDigit)

/-- What a condition says. -/
structure Condition where
  filters : List Filter
  expression : String
  dropped : List String
  deriving DecidableEq, Repr

namespace Condition

/-- A mark that parts two pieces. -/
def isOperatorChar (c : Char) : Bool :=
  "-+=><*/%&|!".toList.contains c

/-- The pieces between the operators, empty ones included. -/
def pieces : List Char → List (List Char)
  | [] => [[]]
  | c :: rest =>
    if isOperatorChar c then [] :: pieces rest
    else
      match pieces rest with
      | piece :: more => (c :: piece) :: more
      | [] => [[c]]

/-- A name at the head: an ASCII letter or `_`, and word characters after it. -/
def name? (cs : List Char) : Option (List Char × List Char) :=
  match cs with
  | c :: _ =>
    if isAsciiLetter c || c == '_' then some (cs.takeWhile isWordChar, cs.dropWhile isWordChar)
    else none
  | [] => none

/-- Word characters at the head, at least one. -/
def word? (cs : List Char) : Option (List Char × List Char) :=
  match cs.takeWhile isWordChar with
  | [] => none
  | word => some (word, cs.dropWhile isWordChar)

def after? (c : Char) : List Char → Option (List Char)
  | d :: rest => if d = c then some rest else none
  | [] => none

/-- The parts of `selector(key)`. -/
def simple? (cs : List Char) : Option (List Char × List Char) := do
  let (selector, cs) ← name? cs
  let (key, cs) ← word? (← after? '(' cs)
  let cs ← after? ')' cs
  if cs.isEmpty then some (selector, key) else none

/-- The parts of `transformation(selector(key),digits)`; the comma and the digits may be missing. -/
def transformed? (cs : List Char) : Option (List Char × List Char × List Char × List Char) := do
  let (transformation, cs) ← name? cs
  let (selector, cs) ← name? (← after? '(' cs)
  let (key, cs) ← word? (← after? '(' cs)
  let cs ← after? ')' cs
  let cs := (after? ',' cs).getD cs
  let digits := cs.takeWhile isDecimalDigit
  let cs ← after? ')' (cs.dropWhile isDecimalDigit)
  if cs.isEmpty then some (transformation, selector, key, digits) else none

/-- The largest parameter: `2 ^ 63 - 1`. -/
def maxParam : Nat := 9223372036854775807

/-- The parameter that digits write: none without digits, none of other scripts, none too large. -/
def param? (digits : List Char) : Except ConditionError (Option Int) :=
  if digits.isEmpty then .ok none
  else if digits.all isAsciiDigit && Decimal.digitsValue digits ≤ maxParam then
    .ok (some (Decimal.digitsValue digits))
  else .error (.notInteger (String.ofList digits))

/-- The filter that a piece writes. -/
def filter? (piece : List Char) : Except ConditionError (Option Filter) :=
  match transformed? piece with
  | some (transformation, selector, key, digits) => do
    let param ← param? digits
    return some
      { selector := String.ofList selector
        transformation := some (String.ofList transformation)
        key := String.ofList key
        param }
  | none =>
    .ok ((simple? piece).map fun (selector, key) =>
      { selector := String.ofList selector
        transformation := none
        key := String.ofList key
        param := none })

/-- What a piece is. -/
inductive Piece where
  | filter (f : Filter)
  | number
  | dropped (text : String)
  deriving DecidableEq, Repr

def classify (piece : List Char) : Except ConditionError Piece := do
  match ← filter? piece with
  | some f => return .filter f
  | none =>
    let text := String.ofList piece
    return if (Decimal.read? text).isSome then .number else .dropped text

/-- The members of a list, each where it first appears. -/
def distinct {α : Type} [DecidableEq α] : List α → List α
  | [] => []
  | a :: rest => a :: (distinct rest).filter (· ≠ a)

/-- The first filter that shares its identifier with an earlier one, after that one. -/
def clash? (earlier : List Filter) : List Filter → Option (Filter × Filter)
  | [] => none
  | f :: rest =>
    match earlier.find? fun e => e.identifier == f.identifier with
    | some e => some (e, f)
    | none => clash? (earlier ++ [f]) rest

/-- The filters, longest first; of equally long ones the first stays first. -/
def longestFirst (filters : List Filter) : List Filter :=
  filters.mergeSort fun a b => b.text.utf8ByteSize ≤ a.text.utf8ByteSize

/-- Put the identifiers of filters in their place, one filter after the other. -/
def substitute (filters : List Filter) (text : String) : String :=
  filters.foldl (fun text f => Text.replace f.text f.identifier text) text

def parse (input : String) : Except ConditionError Condition := do
  let stripped := Text.strip input
  let found ← ((pieces stripped.toList).filter (!·.isEmpty)).mapM classify
  let filters := distinct (found.filterMap fun
    | .filter f => some f
    | _ => none)
  let dropped := found.filterMap fun
    | .dropped text => some text
    | _ => none
  if filters.isEmpty then throw .noFilters
  match clash? [] filters with
  | some (first, second) => throw (.ambiguous first second)
  | none => return { filters, expression := substitute (longestFirst filters) stripped, dropped }

end Condition

end Vigil

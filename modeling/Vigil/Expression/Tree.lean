import Vigil.Expression.Token

/-!
# Expression trees

An operator takes the values of both operands; a connective looks at its right operand only when the
left one does not decide. Operators and connectives that stand between two operands have a level, from
`||` at 1 to the products at 6; a higher level binds tighter.
-/

namespace Vigil.Expression

/-- What stands between two operands that are both evaluated. -/
inductive Operator where
  | add
  | sub
  | mul
  | div
  | rem
  | greater
  | greaterEqual
  | less
  | lessEqual
  | equal
  | notEqual
  deriving Repr, DecidableEq

/-- What joins two conditions, the second of which may stay unevaluated. -/
inductive Connective where
  | and
  | or
  deriving Repr, DecidableEq

/-- A compiled expression. -/
inductive Tree where
  | number (value : Float)
  | truth (value : Bool)
  | variable (name : String)
  | negate (operand : Tree)
  | not (operand : Tree)
  | apply (op : Operator) (left right : Tree)
  | connect (op : Connective) (left right : Tree)
  deriving Repr

/-- Whatever may stand between two operands. -/
inductive Joint where
  | operator (op : Operator)
  | connective (op : Connective)
  deriving Repr, DecidableEq

def Operator.symbol : Operator → String
  | .add => "+"
  | .sub => "-"
  | .mul => "*"
  | .div => "/"
  | .rem => "%"
  | .greater => ">"
  | .greaterEqual => ">="
  | .less => "<"
  | .lessEqual => "<="
  | .equal => "=="
  | .notEqual => "!="

def Connective.symbol : Connective → String
  | .and => "&&"
  | .or => "||"

def Operator.level : Operator → Nat
  | .equal | .notEqual => 3
  | .greater | .greaterEqual | .less | .lessEqual => 4
  | .add | .sub => 5
  | .mul | .div | .rem => 6

def Connective.level : Connective → Nat
  | .or => 1
  | .and => 2

/-- How tightly a joint binds. -/
def Joint.level : Joint → Nat
  | .operator op => op.level
  | .connective op => op.level

/-- The tree of two operands and what stands between them. -/
def Joint.join : Joint → Tree → Tree → Tree
  | .operator op => .apply op
  | .connective op => .connect op

/-- The joint that a token stands for. -/
def Token.joint? : Token → Option Joint
  | .plus => some (.operator .add)
  | .minus => some (.operator .sub)
  | .star => some (.operator .mul)
  | .slash => some (.operator .div)
  | .percent => some (.operator .rem)
  | .greater => some (.operator .greater)
  | .greaterEqual => some (.operator .greaterEqual)
  | .less => some (.operator .less)
  | .lessEqual => some (.operator .lessEqual)
  | .equal => some (.operator .equal)
  | .notEqual => some (.operator .notEqual)
  | .and => some (.connective .and)
  | .or => some (.connective .or)
  | _ => none

/-- The tree of a name: the two truth values or a variable. -/
def Tree.ofName (name : String) : Tree :=
  if name = "true" then .truth true
  else if name = "false" then .truth false
  else .variable name

/-- The variables of a tree from left to right, as often as they stand in it. -/
def Tree.names : Tree → List String
  | .number _ | .truth _ => []
  | .variable name => [name]
  | .negate operand | .not operand => operand.names
  | .apply _ left right | .connect _ left right => left.names ++ right.names

end Vigil.Expression

import Vigil.Template.Value

/-!
# Template trees

A template is text with outputs and branches in it. A branch is chosen by an expression; an `elif` is a
branch inside the other half of its `if`. A comparison may go on: `a == b == c` compares every operand
with the one before it.
-/

namespace Vigil.Template

/-- An expression in a template. -/
inductive Expr where
  | literal (value : Value)
  | variable (name : String)
  | negate (operand : Expr)
  | add (left right : Expr)
  | join (left right : Expr)
  | equal (first : Expr) (others : List Expr)
  | filter (name : String) (operand : Expr) (args : List Expr)

/-- A part of a template. -/
inductive Node where
  | text (text : String)
  | output (e : Expr)
  | branch (condition : Expr) (yes no : List Node)

end Vigil.Template

import Vigil.Expression.Evaluation
import Vigil.Expression.Lexer
import Vigil.Expression.Parser
import Vigil.Named

/-!
# Compiled expressions

An expression is compiled once from its text and evaluated as often as there are bindings for its
variables. From loosest to tightest it is built with `||`, `&&`, equality (`==`, `!=`, and `=` for
`==`), order (`>`, `>=`, `<`, `<=`), sums, products and the signs `-` and `!`; operands are numbers,
`true`, `false`, variables and expressions in parentheses.
-/

namespace Vigil

/-- An expression and the text that it was compiled from. -/
structure Expression where
  source : String
  tree : Expression.Tree
  deriving Repr

namespace Expression

def compile (source : String) : Except SyntaxError Expression := do
  let ts ← lexemes source
  let tree ← Tree.ofLexemes ts
  return ⟨source, tree⟩

/-- The variables in ascending order, each once. -/
def names (e : Expression) : List String :=
  (Named.ofList (e.tree.names.map fun name => (name, ()))).names

def evaluate (e : Expression) (lookup : String → Option Float) : Except EvaluationError Value :=
  e.tree.evaluate lookup

/-- The truth value under a binding of the variables. -/
def evaluateBool (e : Expression) (lookup : String → Option Float) : Except EvaluationError Bool :=
  e.tree.evaluateBool lookup

end Expression

end Vigil

import Vigil.Decimal.Shortest

/-!
# Tokens of an expression

A token is a number, a name or one of the marks of the expression language. `=` and `==` are one
token. A lexeme is a token together with the place where it starts, counted in UTF-8 bytes.
-/

namespace Vigil.Expression

/-- The smallest units of an expression. -/
inductive Token where
  | number (value : Float)
  | name (text : String)
  | plus
  | minus
  | star
  | slash
  | percent
  | greater
  | greaterEqual
  | less
  | lessEqual
  | equal
  | notEqual
  | and
  | or
  | bang
  | openParen
  | closeParen
  deriving Repr

def Token.text : Token → String
  | .number value => Decimal.text value
  | .name text => text
  | .plus => "+"
  | .minus => "-"
  | .star => "*"
  | .slash => "/"
  | .percent => "%"
  | .greater => ">"
  | .greaterEqual => ">="
  | .less => "<"
  | .lessEqual => "<="
  | .equal => "=="
  | .notEqual => "!="
  | .and => "&&"
  | .or => "||"
  | .bang => "!"
  | .openParen => "("
  | .closeParen => ")"

/-- A token and the byte offset at which it starts. -/
structure Lexeme where
  token : Token
  position : Nat
  deriving Repr

/-- Why a text is no expression. -/
inductive SyntaxError where
  | unexpectedCharacter (found : Char) (position : Nat)
  | unexpectedToken (found : String) (position : Nat)
  | unexpectedEnd
  | invalidNumber (literal : String)
  deriving Repr, DecidableEq

def SyntaxError.message : SyntaxError → String
  | .unexpectedCharacter found position => s!"unexpected character '{found}' at position {position}"
  | .unexpectedToken found position => s!"unexpected token '{found}' at position {position}"
  | .unexpectedEnd => "unexpected end of expression"
  | .invalidNumber literal => s!"invalid number literal '{literal}'"

end Vigil.Expression

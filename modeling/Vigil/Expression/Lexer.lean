import Vigil.Expression.Token
import Vigil.Decimal.Reading
import Vigil.Text.Blank

/-!
# Cutting a text into tokens

Blanks separate tokens and mean nothing else. A number starts with a digit or a point and runs on
through digits, points and the letters `e` and `E`, and through a sign right after such a letter; the
run must then read as one decimal. A name starts with an alphabetic character or `_` and runs on
through alphanumeric characters and `_`. Marks of two characters win over marks of one.
-/

namespace Vigil.Expression

open Vigil.Text (isBlank isAlphabetic isAlphanumeric isAsciiDigit)

/-- The bytes that the characters take in UTF-8. -/
def byteLength : List Char → Nat
  | [] => 0
  | c :: cs => c.utf8Size + byteLength cs

def startsNumber (c : Char) : Bool :=
  isAsciiDigit c || c == '.'

def startsName (c : Char) : Bool :=
  isAlphabetic c || c == '_'

/-- A name goes on through this character. -/
def continuesName (c : Char) : Bool :=
  isAlphanumeric c || c == '_'

/-- A number goes on through `c` when the character before it is `previous`. -/
def continuesNumber (previous c : Char) : Bool :=
  isAsciiDigit c || c == '.' || c == 'e' || c == 'E' ||
    ((c == '+' || c == '-') && (previous == 'e' || previous == 'E'))

/-- How many characters continue a number whose last character is `previous`. -/
def numberTail (previous : Char) : List Char → Nat
  | [] => 0
  | c :: rest => if continuesNumber previous c then numberTail c rest + 1 else 0

/-- How many characters continue a name. -/
def nameTail : List Char → Nat
  | [] => 0
  | c :: rest => if continuesName c then nameTail rest + 1 else 0

/-- The mark that starts with `c`, and whether it takes the next character too. -/
def mark? (c : Char) (next : Option Char) : Option (Token × Nat) :=
  match c, next with
  | '>', some '=' => some (.greaterEqual, 1)
  | '<', some '=' => some (.lessEqual, 1)
  | '=', some '=' => some (.equal, 1)
  | '!', some '=' => some (.notEqual, 1)
  | '&', some '&' => some (.and, 1)
  | '|', some '|' => some (.or, 1)
  | '>', _ => some (.greater, 0)
  | '<', _ => some (.less, 0)
  | '=', _ => some (.equal, 0)
  | '!', _ => some (.bang, 0)
  | '+', _ => some (.plus, 0)
  | '-', _ => some (.minus, 0)
  | '*', _ => some (.star, 0)
  | '/', _ => some (.slash, 0)
  | '%', _ => some (.percent, 0)
  | '(', _ => some (.openParen, 0)
  | ')', _ => some (.closeParen, 0)
  | _, _ => none

/-- The token that starts with the character `c` at `position`, and how many of the characters after
`c` belong to it. -/
def token (position : Nat) (c : Char) (rest : List Char) : Except SyntaxError (Token × Nat) :=
  if startsNumber c then
    let extra := numberTail c rest
    let literal := String.ofList (c :: rest.take extra)
    match Decimal.read? literal with
    | some value => .ok (.number value, extra)
    | none => .error (.invalidNumber literal)
  else if startsName c then
    let extra := nameTail rest
    .ok (.name (String.ofList (c :: rest.take extra)), extra)
  else
    match mark? c rest.head? with
    | some found => .ok found
    | none => .error (.unexpectedCharacter c position)

/-- The tokens of a text that starts at byte `position`. -/
def lexemesFrom (position : Nat) : List Char → Except SyntaxError (List Lexeme)
  | [] => .ok []
  | c :: rest =>
    if isBlank c then lexemesFrom (position + c.utf8Size) rest
    else do
      let (found, extra) ← token position c rest
      let more ← lexemesFrom (position + byteLength (c :: rest.take extra)) (rest.drop extra)
      return ⟨found, position⟩ :: more
termination_by cs => cs.length
decreasing_by
  all_goals simp only [List.length_cons, List.length_drop]; omega

def lexemes (source : String) : Except SyntaxError (List Lexeme) :=
  lexemesFrom 0 source.toList

end Vigil.Expression

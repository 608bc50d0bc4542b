/-!
# JSON values

The values that records are written to and read from. Whole numbers written without a point or an
exponent are kept apart from all others, since only they can be counts. The members of an object are
kept in order and with repetitions: what a repeated name means is up to the record that is read. A
string that spells half of a surrogate pair stands for no text; it can be skipped but not read.
-/

namespace Vigil

/-- A JSON value. -/
inductive Json where
  | null
  | bool (value : Bool)
  | int (value : Int)
  | real (negative : Bool) (digits : Nat) (exponent : Int)
  | string (text : String)
  | unreadable
  | array (items : List Json)
  | object (members : List (String × Json))
  deriving Repr

namespace Json

def string? : Json → Option String
  | string text => some text
  | _ => none

def bool? : Json → Option Bool
  | bool value => some value
  | _ => none

def int? : Json → Option Int
  | int value => some value
  | _ => none

/-- A whole number from zero up to, but not including, `limit`. -/
def nat? (limit : Nat) : Json → Option Nat
  | int (.ofNat n) => if n < limit then some n else none
  | _ => none

def array? : Json → Option (List Json)
  | array items => some items
  | _ => none

/-- Nothing for `null`, else what the reader makes of the value. -/
def optional? {α : Type} (read : Json → Option α) : Json → Option (Option α)
  | null => some none
  | j => (read j).map some

def list? {α : Type} (read : Json → Option α) (j : Json) : Option (List α) := do
  (← j.array?).mapM read

def ofOption {α : Type} (write : α → Json) : Option α → Json
  | none => null
  | some a => write a

end Json

/-- The number of counts of 64 bits: `2 ^ 64`. -/
def countLimit : Nat := 18446744073709551616

end Vigil

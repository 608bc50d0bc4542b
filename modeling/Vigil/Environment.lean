import Vigil.Document.Json
import Vigil.Text.Letter

/-!
# The environment

What the environment of the program may say: where the settings are, how many seconds lie between
evaluations, and where the database is. An interval that is not a whole number below `2 ^ 64` counts
as not said.
-/

namespace Vigil

/-- The variables of the environment that the program reads. -/
structure Environment where
  config : Option String
  interval : Option String
  database : Option String
  deriving DecidableEq, Repr

namespace Environment

open Text (isAsciiDigit)

/-- Where the settings are when nothing is said. -/
def defaultConfig : String := "./config.json"

def silent : Environment := ⟨none, none, none⟩

def configPath (e : Environment) : String :=
  e.config.getD defaultConfig

/-- The count of 64 bits that a text of digits writes, with a plus before it or not. -/
def count? (text : String) : Option Nat :=
  let digits := match text.toList with
    | '+' :: rest => rest
    | cs => cs
  let n := digits.foldl (fun n c => n * 10 + (c.toNat - '0'.toNat)) 0
  if digits.isEmpty || !digits.all isAsciiDigit || countLimit ≤ n then none else some n

/-- The seconds between evaluations. -/
def interval? (e : Environment) : Option Nat :=
  e.interval.bind count?

end Environment

end Vigil

import Vigil.Document.Json
import Vigil.Decimal.Reading

/-!
# Reading JSON text

A text is a value with nothing but blanks around it: spaces, tabs and line ends. Numbers have no
leading zeros and no sign but `-`; a point stands between digits. Strings hold no raw control
characters. An escaped pair of surrogates is one character, a surrogate by itself makes the string
unreadable.
-/

namespace Vigil.Json

open Vigil.Decimal (digitsValue)
open Vigil.Text (isAsciiDigit)

def skip (cs : List Char) : List Char :=
  cs.dropWhile fun c => c == ' ' || c == '\t' || c == '\n' || c == '\r'

def hexValue? (c : Char) : Option Nat :=
  if isAsciiDigit c then some (c.toNat - '0'.toNat)
  else if 'a' ≤ c && c ≤ 'f' then some (c.toNat - 'a'.toNat + 10)
  else if 'A' ≤ c && c ≤ 'F' then some (c.toNat - 'A'.toNat + 10)
  else none

def hex4? (a b c d : Char) : Option Nat := do
  return (((← hexValue? a) * 16 + (← hexValue? b)) * 16 + (← hexValue? c)) * 16 + (← hexValue? d)

/-- The character that a letter after a backslash stands for. -/
def escape? : Char → Option Char
  | '"' => some '"'
  | '\\' => some '\\'
  | '/' => some '/'
  | 'b' => some (Char.ofNat 8)
  | 'f' => some (Char.ofNat 12)
  | 'n' => some '\n'
  | 'r' => some '\r'
  | 't' => some '\t'
  | _ => none

/-- What stands between two quotes: its characters, whether all of them are readable, and the text
after the closing quote. -/
structure Quoted where
  chars : List Char
  readable : Bool
  rest : List Char

/-- The same with a character in front. -/
def Quoted.push (c : Char) (q : Quoted) : Quoted :=
  { q with chars := c :: q.chars }

/-- The first of two surrogates. -/
def isHighSurrogate (n : Nat) : Bool := 0xD800 ≤ n && n ≤ 0xDBFF

/-- The second of two surrogates. -/
def isLowSurrogate (n : Nat) : Bool := 0xDC00 ≤ n && n ≤ 0xDFFF

/-- The second of two surrogates that the text starts with, escaped. -/
def lowSurrogate? : List Char → Option Nat
  | '\\' :: 'u' :: a :: b :: c :: d :: _ => (hex4? a b c d).filter isLowSurrogate
  | _ => none

def readQuoted : List Char → Option Quoted
  | [] => none
  | '"' :: rest => some ⟨[], true, rest⟩
  | '\\' :: 'u' :: a :: b :: c :: d :: rest =>
    match hex4? a b c d with
    | none => none
    | some n =>
      if isHighSurrogate n then
        match lowSurrogate? rest with
        | some m =>
          (readQuoted (rest.drop 6)).map
            (.push (Char.ofNat (0x10000 + (n - 0xD800) * 1024 + (m - 0xDC00))))
        | none => (readQuoted rest).map fun q => { q with readable := false }
      else if isLowSurrogate n then (readQuoted rest).map fun q => { q with readable := false }
      else (readQuoted rest).map (.push (Char.ofNat n))
  | '\\' :: c :: rest =>
    match escape? c with
    | none => none
    | some e => (readQuoted rest).map (.push e)
  | c :: rest => if c.toNat < 32 then none else (readQuoted rest).map (.push c)
termination_by cs => cs.length
decreasing_by
  all_goals simp only [List.length_cons, List.length_drop]; omega

/-- The digits of a whole part: a zero alone, or digits that do not start with one. -/
def readWhole? (cs : List Char) : Option (List Char × List Char) :=
  match cs with
  | '0' :: rest => some (['0'], rest)
  | c :: _ => if isAsciiDigit c then some (cs.takeWhile isAsciiDigit, cs.dropWhile isAsciiDigit) else none
  | [] => none

def readPoint? (cs : List Char) : Option (Option (List Char) × List Char) :=
  match cs with
  | '.' :: rest =>
    let digits := rest.takeWhile isAsciiDigit
    if digits.isEmpty then none else some (some digits, rest.dropWhile isAsciiDigit)
  | _ => some (none, cs)

def readPower? (cs : List Char) : Option (Option Int × List Char) :=
  match cs with
  | c :: rest =>
    if c = 'e' ∨ c = 'E' then
      let (negative, after) := Decimal.readSign rest
      let digits := after.takeWhile isAsciiDigit
      if digits.isEmpty then none
      else
        let n : Int := digitsValue digits
        some (some (if negative then -n else n), after.dropWhile isAsciiDigit)
    else some (none, cs)
  | [] => some (none, [])

def readUnsigned? (negative : Bool) (cs : List Char) : Option (Json × List Char) := do
  let (whole, cs) ← readWhole? cs
  let (point, cs) ← readPoint? cs
  let (power, cs) ← readPower? cs
  match point, power with
  | none, none =>
    let n := digitsValue whole
    if negative && n == 0 then return (.real true 0 0, cs)
    else return (.int (if negative then -(n : Int) else n), cs)
  | _, _ =>
    let fraction := point.getD []
    return (.real negative (digitsValue (whole ++ fraction)) (power.getD 0 - fraction.length), cs)

def readNumber? (cs : List Char) : Option (Json × List Char) :=
  match cs with
  | '-' :: rest => readUnsigned? true rest
  | _ => readUnsigned? false cs

mutual

/-- The value at the head of the text. -/
def readValue : Nat → List Char → Option (Json × List Char)
  | 0, _ => none
  | fuel + 1, cs =>
    match skip cs with
    | 'n' :: 'u' :: 'l' :: 'l' :: rest => some (.null, rest)
    | 't' :: 'r' :: 'u' :: 'e' :: rest => some (.bool true, rest)
    | 'f' :: 'a' :: 'l' :: 's' :: 'e' :: rest => some (.bool false, rest)
    | '"' :: rest => (readQuoted rest).map fun q =>
        (if q.readable then .string (String.ofList q.chars) else .unreadable, q.rest)
    | '[' :: rest =>
      match skip rest with
      | ']' :: after => some (.array [], after)
      | _ => (readItems fuel rest).map fun (items, after) => (.array items, after)
    | '\x7b' :: rest =>
      match skip rest with
      | '\x7d' :: after => some (.object [], after)
      | _ => (readMembers fuel rest).map fun (members, after) => (.object members, after)
    | other => readNumber? other

def readItems : Nat → List Char → Option (List Json × List Char)
  | 0, _ => none
  | fuel + 1, cs =>
    match readValue fuel cs with
    | none => none
    | some (item, rest) =>
      match skip rest with
      | ']' :: after => some ([item], after)
      | ',' :: more => (readItems fuel more).map fun (items, after) => (item :: items, after)
      | _ => none

def readMembers : Nat → List Char → Option (List (String × Json) × List Char)
  | 0, _ => none
  | fuel + 1, cs =>
    match skip cs with
    | '"' :: rest =>
      match readQuoted rest with
      | none => none
      | some q =>
        match q.readable, skip q.rest with
        | true, ':' :: more =>
          match readValue fuel more with
          | none => none
          | some (value, rest) =>
            let member := (String.ofList q.chars, value)
            match skip rest with
            | '\x7d' :: after => some ([member], after)
            | ',' :: more => (readMembers fuel more).map fun (members, after) => (member :: members, after)
            | _ => none
        | _, _ => none
    | _ => none

end

def ofText? (text : String) : Option Json :=
  let cs := text.toList
  match readValue (2 * cs.length + 2) cs with
  | some (value, rest) => if (skip rest).isEmpty then some value else none
  | none => none

end Vigil.Json

import Vigil.Decimal.Reading
import Vigil.Document.Reader
import Vigil.Template.Value
import Vigil.Text.Blank

/-!
# Cutting a template into segments

Between `\x7b\x7b` and `\x7d\x7d` stands an output, between `\x7b%` and `%\x7d` a statement, between
`\x7b#` and `#\x7d` a comment; all else is text. A hyphen on the inner side of a delimiter removes the
blanks of the text next to it. One line end at the very end of the template does not count.

Outputs and statements are cut into tokens: names, numbers, quoted texts and marks. Whole numbers may
have underscores between their digits and may be written in base 2, 8 or 16.
-/

namespace Vigil.Template

open Vigil.Text (isAsciiLetter isAsciiDigit trimLeft trimRight)

/-- The smallest units inside an output or a statement. -/
inductive Token where
  | name (text : String)
  | literal (value : Value)
  | mark (text : String)

/-- A stretch of a template. -/
inductive Segment where
  | text (text : String)
  | output (tokens : List Token)
  | statement (tokens : List Token)

def isNameChar (c : Char) : Bool :=
  isAsciiLetter c || isAsciiDigit c || c == '_'

def isAsciiBlank (c : Char) : Bool :=
  c == ' ' || c == '\t' || c == '\n' || c == '\r' || c.toNat == 12

/-- Where a number stands while it is read. -/
inductive NumberState where
  | whole
  | radix
  | fraction
  | exponent
  | afterExponent
  deriving DecidableEq

/-- Where a number stands after one more character, if it goes on through that. -/
def NumberState.next? (state : NumberState) (base : Nat) (c : Char) : Option NumberState :=
  if isAsciiDigit c then some (if state = exponent then afterExponent else state)
  else if c = '_' then some state
  else if c = '.' ∧ state = whole then some fraction
  else if (c = 'e' ∨ c = 'E') ∧ (state = whole ∨ state = fraction) then some exponent
  else if (c = '+' ∨ c = '-') ∧ state = exponent then some afterExponent
  else if state = radix ∧ base = 16 ∧ (Json.hexValue? c).isSome then some state
  else none

/-- The characters of a number, where it ends, and what follows. -/
def numberChars (base : Nat) (state : NumberState) :
    List Char → List Char × NumberState × List Char
  | [] => ([], state, [])
  | c :: rest =>
    match state.next? base c with
    | none => ([], state, c :: rest)
    | some state =>
      let (cs, last, rest) := numberChars base state rest
      (c :: cs, last, rest)

/-- The value of digits in a base. -/
def wholeValue? (base : Nat) (cs : List Char) : Option Nat :=
  if cs.isEmpty then none
  else cs.foldlM (fun n c => do
    let d ← Json.hexValue? c
    if d < base then some (n * base + d) else none) 0

/-- The base that a number announces, and the number without the announcement. -/
def announcedBase (cs : List Char) : Nat × List Char :=
  match cs with
  | '0' :: c :: rest =>
    if c = 'b' ∨ c = 'B' then (2, rest)
    else if c = 'o' ∨ c = 'O' then (8, rest)
    else if c = 'x' ∨ c = 'X' then (16, rest)
    else (10, cs)
  | _ => (10, cs)

/-- The number at the head, and what follows it. -/
def number? (cs : List Char) : Option (Value × List Char) := do
  let (base, cs) := announcedBase cs
  let (chars, state, rest) := numberChars base (if base = 10 then .whole else .radix) cs
  if chars.getLast? = some '_' then none
  let digits := chars.filter (· != '_')
  if state = .whole ∨ state = .radix then
    let n ← Whole.written? (← wholeValue? base digits)
    return (.int n, rest)
  else
    let x ← Decimal.read? (String.ofList digits)
    return (.float x, rest)

/-- The characters up to the quote that ends a text, with their backslashes, and what follows it. -/
def untilQuote (quote : Char) : List Char → Option (List Char × List Char)
  | [] => none
  | '\\' :: c :: rest => (untilQuote quote rest).map fun (cs, rest) => ('\\' :: c :: cs, rest)
  | c :: rest =>
    if c = quote then some ([], rest)
    else (untilQuote quote rest).map fun (cs, rest) => (c :: cs, rest)

/-- The number that hexadecimal digits write. A plus may stand in place of the first of them. -/
def hexNumber? : List Char → Option Nat
  | '+' :: digits => wholeValue? 16 digits
  | digits => wholeValue? 16 digits

def isOctalDigit (c : Char) : Bool := '0' ≤ c && c ≤ '7'

/-- The text that characters with backslashes stand for. Besides the letters of JSON there are `\x` with
two hexadecimal digits and up to three digits of base 8, both for characters below 256. -/
def unescape? : List Char → Option (List Char)
  | [] => some []
  | '\\' :: 'u' :: a :: b :: c :: d :: rest => do
    let n ← hexNumber? [a, b, c, d]
    if Json.isHighSurrogate n then do
      let m ← Json.lowSurrogate? rest
      let more ← unescape? (rest.drop 6)
      return Char.ofNat (0x10000 + (n - 0xD800) * 1024 + (m - 0xDC00)) :: more
    else if Json.isLowSurrogate n then none
    else do
      let more ← unescape? rest
      return Char.ofNat n :: more
  | '\\' :: 'x' :: a :: b :: rest => do
    let n ← hexNumber? [a, b]
    let more ← unescape? rest
    return Char.ofNat n :: more
  | '\\' :: c :: rest =>
    if isOctalDigit c then do
      let digits := (rest.take 2).takeWhile isOctalDigit
      let n ← wholeValue? 8 (c :: digits)
      let more ← unescape? (rest.drop digits.length)
      if n < 256 then some (Char.ofNat n :: more) else none
    else do
      let e ← if c = '\'' then some '\'' else Json.escape? c
      let more ← unescape? rest
      return e :: more
  | c :: rest => (unescape? rest).map (c :: ·)
termination_by cs => cs.length
decreasing_by
  all_goals simp only [List.length_cons, List.length_drop]; omega

/-- The token at the head of a text that does not start with a blank, and what follows it. -/
def token? (cs : List Char) : Option (Token × List Char) :=
  match cs with
  | [] => none
  | '=' :: '=' :: rest => some (.mark "==", rest)
  | c :: rest =>
    if isAsciiDigit c then (number? cs).map fun (v, rest) => (.literal v, rest)
    else if isAsciiLetter c || c == '_' then
      some (.name (String.ofList (cs.takeWhile isNameChar)), cs.dropWhile isNameChar)
    else if c = '"' ∨ c = '\'' then do
      let (quoted, rest) ← untilQuote c rest
      let chars ← unescape? quoted
      return (.literal (.string (String.ofList chars)), rest)
    else if "+-~|(),".toList.contains c then some (.mark (String.ofList [c]), rest)
    else none

/-- Where an output or a statement ends: with or without a hyphen, then `close`, then a brace. -/
def ending? (close : Char) : List Char → Option (Bool × List Char)
  | '-' :: c :: '\x7d' :: rest => if c = close then some (true, rest) else none
  | c :: '\x7d' :: rest => if c = close then some (false, rest) else none
  | _ => none

/-- The tokens up to the delimiter, whether it removes blanks, and what follows it. -/
def tokens? (close : Char) : Nat → List Char → Option (List Token × Bool × List Char)
  | 0, _ => none
  | fuel + 1, cs =>
    let cs := cs.dropWhile isAsciiBlank
    match ending? close cs with
    | some (trims, rest) => some ([], trims, rest)
    | none =>
      match token? cs with
      | none => none
      | some (token, rest) =>
        (tokens? close fuel rest).map fun (ts, trims, rest) => (token :: ts, trims, rest)

/-- What follows the end of a comment, and whether that removes blanks. -/
def afterComment? : List Char → Option (Bool × List Char)
  | [] => none
  | '-' :: '#' :: '\x7d' :: rest => some (true, rest)
  | '#' :: '\x7d' :: rest => some (false, rest)
  | _ :: rest => afterComment? rest

/-- The text before the first delimiter, and the delimiter's second character with what follows. -/
def untilDelimiter : List Char → List Char × Option (Char × List Char)
  | [] => ([], none)
  | '\x7b' :: c :: rest =>
    if c = '\x7b' ∨ c = '%' ∨ c = '#' then ([], some (c, rest))
    else
      let (text, found) := untilDelimiter (c :: rest)
      ('\x7b' :: text, found)
  | c :: rest =>
    let (text, found) := untilDelimiter rest
    (c :: text, found)

def textSegment (cs : List Char) : List Segment :=
  if cs.isEmpty then [] else [.text (String.ofList cs)]

/-- The inside of a delimiter without the hyphen that it may start with. -/
def openingHyphen : List Char → Bool × List Char
  | '-' :: rest => (true, rest)
  | cs => (false, cs)

/-- The segments of a text; its leading blanks go when the delimiter before it removes them. -/
def segments? : Nat → Bool → List Char → Option (List Segment)
  | 0, _, _ => none
  | fuel + 1, trims, cs =>
    let (text, found) := untilDelimiter (if trims then trimLeft cs else cs)
    match found with
    | none => some (textSegment text)
    | some (opening, inside) => do
      let (hyphen, inside) := openingHyphen inside
      let before := textSegment (if hyphen then trimRight text else text)
      if opening = '#' then
        let (trims, rest) ← afterComment? inside
        return before ++ (← segments? fuel trims rest)
      else
        let close := if opening = '%' then '%' else '\x7d'
        let (tokens, trims, rest) ← tokens? close (inside.length + 1) inside
        let segment := if opening = '%' then Segment.statement tokens else .output tokens
        return before ++ segment :: (← segments? fuel trims rest)

/-- The template without the line end at its very end. -/
def withoutLastLineEnd (cs : List Char) : List Char :=
  let cs := if cs.getLast? = some '\n' then cs.dropLast else cs
  if cs.getLast? = some '\r' then cs.dropLast else cs

def segmentsOf? (source : String) : Option (List Segment) :=
  let cs := withoutLastLineEnd source.toList
  segments? (cs.length + 1) false cs

end Vigil.Template

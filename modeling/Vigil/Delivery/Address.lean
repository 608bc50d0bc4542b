import Vigil.Delivery.Request
import Vigil.Text.Blank

/-!
# Addresses

The address of a request is an absolute URL over HTTP with a host. It is sent in its normal form:
scheme and host in lower case, the number behind the host only if it is not the one that the scheme
stands for, at least a slash for a path, and every character that may not stand in a path or a query as
its bytes in hexadecimal. What follows a `#` is not sent.

Only plain addresses are read: with a host in ASCII, and without the name of a user.
-/

namespace Vigil

namespace Address

def isControlOrSpace (c : Char) : Bool := c.toNat ≤ 0x20

/-- The text without controls and spaces at its ends and without line breaks and tabs. -/
def cleaned (text : String) : List Char :=
  let inner := ((text.toList.dropWhile isControlOrSpace).reverse.dropWhile isControlOrSpace).reverse
  inner.filter fun c => !(c == '\t' || c == '\n' || c == '\r')

/-- A character that ends the host and its number. -/
def endsAuthority (c : Char) : Bool := c == '/' || c == '\\' || c == '?' || c == '#'

def isHostChar (c : Char) : Bool :=
  c.isAlphanum || c == '.' || c == '-' || c == '_' || c == '~' || c == '!' || c == '[' || c == ']' ||
    c == ':'

def hexDigit (n : Nat) : Char :=
  if n < 10 then Char.ofNat ('0'.toNat + n) else Char.ofNat ('A'.toNat + (n - 10))

/-- A character of a path or a query, escaped where it has to be. -/
def escapeChar (c : Char) : List Char :=
  if 0x20 < c.toNat && c.toNat < 0x7F && c != '"' && c != '<' && c != '>' && c != '\x7b' &&
      c != '\x7d' then [c]
  else c.toString.toUTF8.toList.flatMap fun b =>
    ['%', hexDigit (b.toNat / 16), hexDigit (b.toNat % 16)]

/-- The number that a scheme stands for: 443 with encryption, 80 without. -/
def schemeNumber (secure : Bool) : Nat := if secure then 443 else 80

/-- Host and number of a text, the number behind the last colon. -/
def authority? (secure : Bool) (cs : List Char) : Option (String × Option Nat) :=
  let digits := cs.reverse.takeWhile Char.isDigit |>.reverse
  let (host, behind) :=
    match cs.reverse.drop digits.length with
    | ':' :: front => (front.reverse, some digits)
    | _ => (cs, none)
  let number := behind.map fun ds => ds.foldl (fun n c => n * 10 + (c.toNat - '0'.toNat)) 0
  if host.isEmpty || !host.all isHostChar then none
  else if number.any (65535 < ·) then none
  else
    let shown := if behind == some [] || number == some (schemeNumber secure) then none else number
    some (String.ofList (host.map Char.toLower), shown)

def written (secure : Bool) (host : String) (number : Option Nat) (path : String) : Address :=
  let behind := match number with
    | some n => s!":{n}"
    | none => ""
  ⟨(if secure then "https" else "http") ++ "://" ++ host ++ behind ++ path⟩

def ofText? (text : String) : Option Address :=
  let cs := cleaned text
  let scheme := String.ofList ((cs.takeWhile (· != ':')).map Char.toLower)
  if scheme != "http" && scheme != "https" then none
  else
    match cs.dropWhile (· != ':') with
    | ':' :: '/' :: '/' :: rest =>
      let secure := scheme == "https"
      let target := (rest.dropWhile fun c => !endsAuthority c).takeWhile (· != '#')
      let path := match target with
        | '\\' :: more => '/' :: more
        | '/' :: more => '/' :: more
        | other => '/' :: other
      (authority? secure (rest.takeWhile fun c => !endsAuthority c)).map fun (host, number) =>
        written secure host number (String.ofList (path.flatMap escapeChar))
    | _ => none

end Address

end Vigil

import Vigil.Document.Writer
import Vigil.Document.Reader

/-!
# Identifiers

Records are identified by numbers of 128 bits. They are written as 32 hexadecimal digits in groups of
8, 4, 4, 4 and 12; the digits may also be read without the hyphens, in upper case, in braces and
behind `urn:uuid:`.
-/

namespace Vigil

/-- The number of identifiers: `2 ^ 128`. -/
def idLimit : Nat := 340282366920938463463374607431768211456

/-- The identifier of a record. -/
structure Uuid where
  value : Nat
  bounded : value < idLimit
  deriving DecidableEq

namespace Uuid

instance : Repr Uuid := ⟨fun id _ => repr id.value⟩

/-- The identifier of a number, taken modulo the number of identifiers. -/
def ofNat (n : Nat) : Uuid :=
  ⟨n % idLimit, Nat.mod_lt _ (by decide)⟩

/-- The last `count` hexadecimal digits of a number. -/
def hexDigits : Nat → Nat → List Char
  | 0, _ => []
  | count + 1, n => hexDigits count (n / 16) ++ [Json.hexDigit (n % 16)]

/-- The 32 digits of an identifier. -/
def digits (id : Uuid) : List Char :=
  hexDigits 32 id.value

/-- Put the hyphens between the groups of digits. -/
def hyphenated (ds : List Char) : List Char :=
  ds.take 8 ++ '-' :: ((ds.drop 8).take 4 ++ '-' :: ((ds.drop 12).take 4 ++
    '-' :: ((ds.drop 16).take 4 ++ '-' :: ds.drop 20)))

def text (id : Uuid) : String :=
  String.ofList (hyphenated id.digits)

def ofDigits? (ds : List Char) : Option Uuid :=
  if ds.length = 32 then
    (ds.foldlM (fun n c => (Json.hexValue? c).map (n * 16 + ·)) 0).map ofNat
  else none

def ofHyphenated? (cs : List Char) : Option Uuid :=
  let ds := cs.take 8 ++ (cs.drop 9).take 4 ++ (cs.drop 14).take 4 ++ (cs.drop 19).take 4 ++ cs.drop 24
  if cs = hyphenated ds then ofDigits? ds else none

def read? (text : String) : Option Uuid :=
  let cs := text.toList
  if cs.length = 32 then ofDigits? cs
  else if cs.length = 36 then ofHyphenated? cs
  else if cs.length = 38 ∧ cs.head? = some '\x7b' ∧ cs.getLast? = some '\x7d' then
    ofHyphenated? (cs.drop 1).dropLast
  else if cs.length = 45 ∧ cs.take 9 = "urn:uuid:".toList then ofHyphenated? (cs.drop 9)
  else none

end Uuid

end Vigil

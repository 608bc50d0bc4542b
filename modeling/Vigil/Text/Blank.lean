/-!
# Blank characters

The characters that separate words in every text the library reads: the Unicode property
`White_Space`. Trimming removes them from the ends of a text, stripping removes them everywhere.
-/

namespace Vigil.Text

/-- A character with the property `White_Space`. -/
def isBlank (c : Char) : Bool :=
  let n := c.toNat
  (9 ≤ n && n ≤ 13) || n == 0x20 || n == 0x85 || n == 0xA0 || n == 0x1680 ||
    (0x2000 ≤ n && n ≤ 0x200A) || n == 0x2028 || n == 0x2029 || n == 0x202F || n == 0x205F ||
    n == 0x3000

def trimLeft (cs : List Char) : List Char :=
  cs.dropWhile isBlank

def trimRight (cs : List Char) : List Char :=
  (cs.reverse.dropWhile isBlank).reverse

def trim (s : String) : String :=
  String.ofList (trimRight (trimLeft s.toList))

/-- The text without any blank. -/
def strip (s : String) : String :=
  String.ofList (s.toList.filter fun c => !isBlank c)

def isBlankText (s : String) : Bool :=
  s.toList.all isBlank

end Vigil.Text

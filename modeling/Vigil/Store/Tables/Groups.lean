import Vigil.Text.Replace

/-!
# Lists of groups

The groups of a measured value are kept in one text, with a comma before each and after the last. A
value belongs to a group when the name of the group, with a comma on each side, stands in that text.
-/

namespace Vigil.Groups

def encode (groups : List String) : String :=
  "," ++ ",".intercalate groups ++ ","

/-- What stands in the text of every list that has the group. -/
def needle (group : String) : String :=
  "," ++ group ++ ","

/-- The text is that of a list with the group. -/
def holds (encoded group : String) : Bool :=
  Text.occurs (needle group).toList encoded.toList

end Vigil.Groups

import Vigil.Document.Json
import Vigil.Named

/-!
# Reading records

A record is an object with one member for each of its fields, in any order and among members of other
names, or an array of the fields in the order of their declaration. A field is never given twice. A
field that may be left out of an object may also stand at the cut-off end of an array, unless leaving
it out only means that it is empty: then an array has to say so.

A tagged record names its variant in a member of its own, or in the first item of an array.
-/

namespace Vigil.Json

/-- What a record says about one of its fields. -/
inductive Slot where
  | absent
  | cut
  | given (value : Json)

/-- The value under a name that may stand in the list once. -/
def member? (members : List (String × Json)) (name : String) : Option Slot :=
  match members.filter fun m => m.1 == name with
  | [] => some .absent
  | [m] => some (.given m.2)
  | _ => none

/-- The items of an array for the fields of a record; too many is an error. -/
def itemSlots : List String → List Json → Option (List Slot)
  | [], [] => some []
  | [], _ :: _ => none
  | _ :: names, [] => (itemSlots names []).map (.cut :: ·)
  | _ :: names, item :: items => (itemSlots names items).map (.given item :: ·)

/-- What the value says about each of the named fields, in their order. -/
def slots? (names : List String) : Json → Option (List Slot)
  | object members => names.mapM (member? members)
  | array items => itemSlots names items
  | _ => none

/-- A field that has to be there. -/
def Slot.required {α : Type} (read : Json → Option α) : Slot → Option α
  | given value => read value
  | _ => none

/-- A field that may be empty. -/
def Slot.nullable {α : Type} (read : Json → Option α) : Slot → Option (Option α)
  | given value => value.optional? read
  | absent => some none
  | cut => none

/-- A field with a value of its own when it is left out. -/
def Slot.orElse {α : Type} (default : α) (read : Json → Option α) : Slot → Option α
  | given value => read value
  | _ => some default

/-- The variant named under `tag`, and the record without it. -/
def tagged? (tag : String) : Json → Option (String × Json)
  | object members =>
    match members.filter fun m => m.1 == tag with
    | [(_, string variant)] => some (variant, object (members.filter fun m => m.1 != tag))
    | _ => none
  | array (string variant :: items) => some (variant, array items)
  | _ => none

/-- A record without fields: any object, or an empty array. -/
def unit? : Json → Option Unit
  | object _ => some ()
  | array [] => some ()
  | _ => none

/-- A choice without fields: its name, or an object of the name alone with `null`. -/
def choice? : Json → Option String
  | string name => some name
  | object [(name, null)] => some name
  | _ => none

/-- An object whose members all have values of one form; of two with one name the later counts. -/
def named? {α : Type} (read : Json → Option α) : Json → Option (Named α)
  | object members =>
    (members.mapM fun m => (read m.2).map fun value => (m.1, value)).map Named.ofList
  | _ => none

/-- A member, unless it has no value. -/
def memberIfSome {α : Type} (name : String) (write : α → Json) : Option α → List (String × Json)
  | none => []
  | some a => [(name, write a)]

end Vigil.Json

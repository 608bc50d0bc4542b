import Vigil.Time.Instant

/-!
# Points and series

A series is a list of measured values with their times, the earliest first. Measurements are read for
one device or for a group of devices.
-/

namespace Vigil

/-- A value at a time. -/
structure Point where
  time : Instant
  value : Float

/-- Points in order of time. -/
abbrev Series := List Point

/-- Whose measurements are read. -/
inductive Source where
  | device (name : String)
  | group (name : String)
  deriving DecidableEq, Repr

def Source.text : Source → String
  | .device name => s!"device '{name}'"
  | .group name => s!"group '{name}'"

end Vigil

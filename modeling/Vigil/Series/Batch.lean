import Vigil.Named
import Vigil.Series.Query

/-!
# Batches

The series of the filters of one condition, by identifier. Only times that every series of the batch
has a point for are kept, so that equal places counted from the end are points of one time. Of two
filters with one identifier the later one's series stays.
-/

namespace Vigil

/-- Series by identifier. -/
abbrev Batch := Named Series

namespace Batch

def hasTime (series : Series) (t : Instant) : Bool :=
  series.any fun p => p.time = t

/-- Keep the times that all series share. -/
def align (b : Batch) : Batch :=
  b.map fun series => series.filter fun p => b.values.all fun other => hasTime other p.time

/-- The batch of the series of filters, given in the order of the filters. -/
def assemble (filters : List Filter) (results : List Series) : Except AlarmError Batch :=
  if filters.length = results.length then
    .ok (align (.ofList ((filters.map (·.identifier)).zip results)))
  else .error (.inconsistent filters.length results.length)

end Batch

end Vigil

import Vigil.Failure

/-!
# Work in place

Some work changes what it is given step by step and stops where it fails. What it changed until then
stays changed, so it leaves a state behind whether it fails or not. A caller that works on a copy
gets to see that state only if the work succeeds.
-/

namespace Vigil

/-- Work that changes a state in place and gives an answer, or fails. -/
abbrev InPlace := EStateM AlarmError

/-- What became of the work, for a caller that works on a copy. -/
def InPlace.outcome {σ α : Type} (work : InPlace σ α) (s : σ) : Except AlarmError (α × σ) :=
  match work s with
  | .ok answer s => .ok (answer, s)
  | .error cause _ => .error cause

end Vigil

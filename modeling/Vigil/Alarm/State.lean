/-!
# Firing and clearing

An idle alarm whose condition holds fires; a fired alarm whose condition no longer holds is cleared;
otherwise nothing happens. What happens is an event that others are told of.
-/

namespace Vigil

/-- What others are told of. -/
inductive Event where
  | fire
  | clear
  | error
  deriving DecidableEq, Repr

def Event.text : Event → String
  | .fire => "fire"
  | .clear => "clear"
  | .error => "error"

def Event.ofText? : String → Option Event
  | "fire" => some .fire
  | "clear" => some .clear
  | "error" => some .error
  | _ => none

/-- Whether an alarm has fired and is not cleared yet. -/
inductive AlarmState where
  | idle
  | fired
  deriving DecidableEq, Repr

/-- What an evaluation does to an alarm. -/
inductive Transition where
  | fire
  | clear
  | stay
  deriving DecidableEq, Repr

/-- What becomes of the state when the condition does or does not hold. -/
def AlarmState.transition : AlarmState → Bool → Transition
  | idle, true => .fire
  | fired, false => .clear
  | _, _ => .stay

def Transition.event? : Transition → Option Event
  | fire => some .fire
  | clear => some .clear
  | stay => none

end Vigil

import Vigil.Alarm.Document
import Vigil.Series.Plan

/-!
# Settings

How the program is set up: how often alarms are evaluated and how long it waits after a pass that broke
down, where records are kept, for how long and how densely measurements are kept, and how many points
are read at most. Everything may be left out. Settings are a JSON record; what cannot be read is
reported before what is out of bounds, and the policies before the number of points.
-/

namespace Vigil

/-- Where records are kept. -/
inductive StorageSetting where
  | memory
  | database (path : String)
  deriving DecidableEq, Repr

/-- How the program is set up. -/
structure Settings where
  interval : Span
  cooldown : Span
  storage : Option StorageSetting
  policies : List Policy
  maxPoints : Nat
  deriving DecidableEq

/-- Why settings are refused. -/
inductive SettingsError where
  | malformed
  | policies (cause : ValidationError)
  | maxPointsOutOfBounds (most got : Nat)
  deriving DecidableEq

def SettingsError.message : SettingsError → String
  | .malformed => "Invalid configuration file provided!"
  | .policies cause => (AlarmError.invalid cause).message
  | .maxPointsOutOfBounds most got => s!"max_points must be between 1 and {most}, got {got}"

namespace StorageSetting

/-- The database of settings that name none. -/
def defaultPath : String := "./alarms.db"

/-- Where records are kept when it is to be a database and nothing more is said. -/
def default : StorageSetting := .database defaultPath

def ofJson? (j : Json) : Option StorageSetting := do
  let (backend, content) ← j.tagged? "backend"
  match backend with
  | "none" => content.unit?.map fun _ => memory
  | "sqlite" =>
    match ← content.slots? ["path"] with
    | [path] => (path.orElse defaultPath Json.string?).map database
    | _ => none
  | _ => none

end StorageSetting

namespace Settings

/-- The seconds between evaluations when nothing else is said. -/
def defaultInterval : Nat := 15

/-- The seconds to wait after a pass that broke down when nothing else is said. -/
def defaultCooldown : Nat := 15

def default : Settings where
  interval := .ofSeconds defaultInterval
  cooldown := .ofSeconds defaultCooldown
  storage := none
  policies := Policy.defaults
  maxPoints := maxPointsCap

def pausesOfJson? (j : Json) : Option (Span × Span) := do
  match ← j.slots? ["interval", "cooldown"] with
  | [interval, cooldown] =>
    return (
      ← interval.orElse default.interval Span.ofJson?,
      ← cooldown.orElse default.cooldown Span.ofJson?)
  | _ => none

/-- Settings, read, within bounds or not. -/
def ofJson? (j : Json) : Option Settings := do
  match ← j.slots? ["alarms", "storage", "retentions", "max_points"] with
  | [alarms, storage, retentions, maxPoints] =>
    let (interval, cooldown) ← alarms.orElse (default.interval, default.cooldown) pausesOfJson?
    return {
      interval, cooldown
      storage := ← storage.nullable StorageSetting.ofJson?
      policies := ← retentions.orElse default.policies (Json.list? Policy.ofJson?)
      maxPoints := ← maxPoints.orElse default.maxPoints (Json.nat? countLimit) }
  | _ => none

/-- Refuse settings that are out of bounds. -/
def validate (s : Settings) : Except SettingsError Unit := do
  (Policy.validateOrder s.policies).mapError .policies
  if s.maxPoints = 0 ∨ maxPointsCap < s.maxPoints then
    throw (.maxPointsOutOfBounds maxPointsCap s.maxPoints)

def ofText (text : String) : Except SettingsError Settings :=
  match (Json.ofText? text).bind ofJson? with
  | none => .error .malformed
  | some s => s.validate.map fun _ => s

def reader (s : Settings) : Reader :=
  (Reader.ofPolicies s.policies).withMaxPoints s.maxPoints

end Settings

end Vigil

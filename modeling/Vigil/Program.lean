import Vigil.Environment
import Vigil.Offline
import Vigil.Program.Arguments
import Vigil.Program.Files
import Vigil.Scheduler.Clocked
import Vigil.Settings
import Vigil.Store.Memory

/-!
# The program

A run of the program reads the command line, the settings and the environment, opens its store and
evaluates alarms: once, or on a schedule until it is interrupted. It fails when the settings cannot be
read, when the database cannot be opened, when the interval is too short, and, in a single pass, when
the alarms that are due cannot be looked up.
-/

namespace Vigil.Program

/-- What the program finds around it. -/
structure Surroundings where
  environment : Environment
  files : Files
  network : Courier
  clock : Instant

/-- How a run ended, and what it has to say. -/
structure Report where
  exit : Nat
  evaluated : Option Nat
  counters : Option (List (String × Nat))
  failure : Option (List String)
  shutDown : Bool
  memoryOnly : Bool
  sent : List Request

namespace Report

def quiet (exit : Nat) : Report := ⟨exit, none, none, none, false, false, []⟩

/-- A run that failed, with the failure and its causes. -/
def failed (causes : List String) : Report := { quiet 1 with failure := some causes }

def failureLines : List String → List String
  | [] => []
  | [failure] => [s!"Error: {failure}"]
  | failure :: causes => s!"Error: {failure}" :: "" :: "Caused by:" :: causes.map fun c => s!"    {c}"

def countersLine (counters : List (String × Nat)) : String :=
  "counters: " ++ ", ".intercalate (counters.map fun (name, n) => s!"{name} {n}")

def lines (r : Report) : List String :=
  (if r.memoryOnly then ["no storage configured, alarms are kept in memory only"] else []) ++
    (r.evaluated.toList.map fun n => s!"evaluated {n} alarms") ++
    (if r.shutDown then ["shutting down"] else []) ++
    r.counters.toList.map countersLine ++
    failureLines (r.failure.getD [])

end Report

/-- Why the program did not get as far as opening its store. -/
inductive StartError where
  | unreadable (path : String) (cause : FileError)
  | refused (path : String) (cause : SettingsError)
  deriving DecidableEq

def StartError.causes : StartError → List String
  | unreadable path cause => [s!"failed to read config {path}", cause.message]
  | refused path cause => [s!"failed to read config {path}", cause.message]

/-- The settings of a run; the environment has the last word on the interval. -/
def settings (s : Surroundings) (a : Arguments) : Except StartError Settings := do
  let path := a.file.getD s.environment.configPath
  let text ← (s.files.read path).mapError (.unreadable path)
  let settings ← (Settings.ofText text).mapError (.refused path)
  match s.environment.interval? with
  | some seconds => return { settings with interval := .ofSeconds seconds }
  | none => return settings

/-- The database of a run, if it has one; the environment has the last word. -/
def databasePath? (s : Surroundings) (c : Settings) : Option String :=
  match s.environment.database, c.storage with
  | some path, _ => some path
  | none, some (.database path) => some path
  | none, _ => none

section Serving

variable {σ : Type} [Repository σ]

/-- The scheduler of a run at work, if its interval is long enough. -/
def clocked (s : Surroundings) (c : Settings) (store : σ) : Except AlarmError (Clocked σ) := do
  let scheduler ← Scheduler.create c.interval c.cooldown
  return {
    scheduler
    engine := ⟨store, s.network, .fresh⟩
    reader := c.reader
    script := []
    beginning := s.clock
    elapsed := 0
    lookups := [] }

/-- What an engine has to say at the end of a run. -/
def Report.ofEngine (e : Engine σ) (evaluated : Option Nat) (shutDown : Bool) : Report :=
  { quiet 0 with evaluated, counters := some e.metrics.shown, shutDown, sent := e.network.sent }

/-- Evaluate the alarms of a store, once or until the interruption that comes after the first pass. -/
def serve (s : Surroundings) (c : Settings) (once : Bool) (store : σ) : Report × σ :=
  match clocked s c store with
  | .error cause => (.failed [cause.message], store)
  | .ok w =>
    if once then
      let (summary, engine) := w.engine.runDue w.reader c.interval s.clock
      match summary with
      | .error cause => (.failed [cause.message], engine.store)
      | .ok summary => (.ofEngine engine (some summary.size) false, engine.store)
    else
      let engine := w.start.2.settle.stop.2.engine
      (.ofEngine engine none true, engine.store)

end Serving

/-- A run with a command line, and the database that it leaves behind. -/
def run (s : Surroundings) (words : List String) : Report × Option (String × Tables) :=
  match parse words with
  | .help => (.quiet 0, none)
  | .refused => (.quiet 2, none)
  | .run a =>
    match settings s a with
    | .error cause => (.failed cause.causes, none)
    | .ok c =>
      match databasePath? s c with
      | none => ({ (serve s c a.once Memory.empty).1 with memoryOnly := true }, none)
      | some path =>
        match (s.files.place path).open with
        | .error _ => (.failed [s!"failed to open database {path}"], none)
        | .ok tables =>
          let (report, tables) := serve s c a.once tables
          (report, some (path, tables))

end Vigil.Program

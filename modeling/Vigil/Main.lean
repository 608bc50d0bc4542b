import Std.Time.DateTime.Timestamp
import Vigil.Program

/-!
# The command

The program in the world: it looks at the environment, the clock and the files that a run asks for,
hands them over, and does what the answer says. A database is a text that is read once and written
after every pass. Only this module acts; what is to be done is decided elsewhere.
-/

namespace Vigil.Program

def clock : IO Instant := do
  let now ← Std.Time.Timestamp.now
  return (Instant.ofNanos? now.toNanosecondsSinceUnixEpoch.val).getD .first

def lookAround : IO Environment := do
  return ⟨← IO.getEnv "ALARM_CONFIG", ← IO.getEnv "ALARM_INTERVAL", ← IO.getEnv "ALARM_DB"⟩

/-- What is found at a path. A directory cannot be read, which shows that there is one. -/
def lookAt (path : String) : IO (Except FileError String) := do
  try
    return .ok (← IO.FS.readFile path)
  catch
    | .noFileOrDirectory .. => return .error .missing
    | .inappropriateType _ 21 _ => return .error .directory
    | .inappropriateType .. => return .error .notDirectory
    | cause => return .error (.stated (toString cause))

def seeFile (s : Surroundings) (path : String) : IO Surroundings := do
  return { s with files := s.files.add path (← lookAt path) }

/-- Look at the path of a database, and at the directory that it stands in. -/
def seeDatabase (s : Surroundings) (path : String) : IO Surroundings := do
  let parent := Files.parent path
  let found ← lookAt (if parent.isEmpty then "." else parent)
  seeFile { s with files := s.files.add parent found } path

def see (s : Surroundings) (a : Arguments) : IO Surroundings := do
  let s ← seeFile s (a.file.getD s.environment.configPath)
  match (settings s a).toOption.bind (databasePath? s) with
  | some path => seeDatabase s path
  | none => return s

/-- Write a database, if there is one. -/
def keep : Option (String × Tables) → IO Unit
  | some (path, tables) => IO.FS.writeFile path tables.text
  | none => return ()

/-- Let a scheduler work, second by second, and keep its store after every pass. -/
partial def watch {σ : Type} [Repository σ] (keep : σ → IO Unit) (w : Clocked σ) : IO Unit := do
  let passed := ((← clock).nanos - w.beginning.nanos) / nanosPerSecond
  let w := { w with elapsed := max w.elapsed passed.toNat }.settle
  unless w.lookups.isEmpty do keep w.engine.store
  IO.sleep 1000
  watch keep { w with lookups := [] }

/-- Start a scheduler and let it work, if its interval is long enough. -/
def watchOver {σ : Type} [Repository σ] (keep : σ → IO Unit) (s : Surroundings) (c : Settings)
    (store : σ) : IO Unit :=
  match clocked s c store with
  | .ok w => watch keep w.start.2
  | .error _ => return ()

/-- Evaluate alarms on a schedule until the process is ended. -/
def stay (s : Surroundings) (c : Settings) : IO Unit :=
  match databasePath? s c with
  | none => watchOver (fun _ => return ()) s c Memory.empty
  | some path =>
    match (s.files.place path).open with
    | .ok tables => watchOver (fun t => keep (some (path, t))) s c tables
    | .error _ => return ()

/-- Do what the command line asks for; the answer is the exit code. -/
def act (words : List String) : IO Nat := do
  match parse words with
  | .help =>
    usage.forM IO.println
    return 0
  | .refused =>
    usage.forM IO.eprintln
    return 2
  | .run a =>
    let s ← see ⟨← lookAround, .empty, .offline, ← clock⟩ a
    let (report, left) := run s words
    if a.once || report.failure.isSome then
      report.lines.forM IO.eprintln
      keep left
    else
      let opening : Report := { report with shutDown := false, counters := none }
      opening.lines.forM IO.eprintln
      if let .ok c := settings s a then stay s c
    return report.exit

end Vigil.Program

def main (words : List String) : IO UInt32 := do
  return (← Vigil.Program.act words).toUInt32

/-!
# The command line

The program takes the path of its settings with `-f` or `--file`, runs a single pass with `--once` and
explains itself with `-h` or `--help`. Arguments are read from the left, and the first that asks for
help or is wrong decides. Wrong are unknown options, options given twice, a path that is missing or
looks like an option, a value for an option that takes none, and every other word.
-/

namespace Vigil.Program

/-- What the command line asks for. -/
structure Arguments where
  file : Option String
  once : Bool
  deriving DecidableEq, Repr

/-- What a command line means. -/
inductive Invocation where
  | run (arguments : Arguments)
  | help
  | refused
  deriving DecidableEq, Repr

/-- A word that may be a value: it does not look like an option. -/
def isValue (word : String) : Bool :=
  match word.toList with
  | ['-'] => true
  | '-' :: _ => false
  | _ => true

/-- A word by what it is. -/
inductive Word where
  | file
  | fileIs (path : String)
  | once
  | help
  | rest
  | wrong
  deriving DecidableEq, Repr

def Word.ofText (word : String) : Word :=
  match word with
  | "--file" => file
  | "--once" => once
  | "--help" => help
  | "--" => rest
  | "-f" => file
  | _ =>
    match word.toList with
    | '-' :: '-' :: 'f' :: 'i' :: 'l' :: 'e' :: '=' :: path => fileIs (String.ofList path)
    | '-' :: 'f' :: '=' :: path => fileIs (String.ofList path)
    | '-' :: 'f' :: path => fileIs (String.ofList path)
    | '-' :: 'h' :: _ => help
    | _ => wrong

/-- Take the path of the settings, which may be given once. -/
def Arguments.withFile (a : Arguments) (path : String) : Option Arguments :=
  if a.file.isSome then none else some { a with file := some path }

/-- What a command line means after some of its words have been read. -/
def parseFrom (a : Arguments) : List String → Invocation
  | [] => .run a
  | word :: words =>
    match Word.ofText word with
    | .once => if a.once then .refused else parseFrom { a with once := true } words
    | .help => .help
    | .rest => if words.isEmpty then .run a else .refused
    | .wrong => .refused
    | .fileIs path =>
      match a.withFile path with
      | some a => parseFrom a words
      | none => .refused
    | .file =>
      match words with
      | path :: words =>
        match a.withFile path with
        | some a => if isValue path then parseFrom a words else .refused
        | none => .refused
      | [] => .refused

def parse (words : List String) : Invocation :=
  parseFrom ⟨none, false⟩ words

/-- What the program says about its command line. -/
def usage : List String := [
  "Usage: [OPTIONS]",
  "",
  "Options:",
  "  -f, --file <FILE>  Config file (defaults to $ALARM_CONFIG or ./config.json)",
  "      --once         Run a single pass over the due alarms and exit",
  "  -h, --help         Print help"]

end Vigil.Program

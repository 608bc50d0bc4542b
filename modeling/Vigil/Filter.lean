/-!
# Filters

A filter names one series: a measurement key, the selector that reduces each interval of its points to
a number, and perhaps a transformation of the numbers, with a parameter. `mean(temperature)` and
`derivative(max(temperature),10)` are the two written forms. In an expression a filter is a variable,
named by its parts without the parameter.
-/

namespace Vigil

/-- One clause of a condition. -/
structure Filter where
  selector : String
  transformation : Option String
  key : String
  param : Option Int
  deriving DecidableEq, Repr

namespace Filter

/-- How a filter is written. -/
inductive Kind where
  | simple
  | transformed
  | parameterized
  deriving DecidableEq, Repr

/-- The form of a filter; a parameter without a transformation is not written. -/
def kind (f : Filter) : Kind :=
  match f.transformation, f.param with
  | none, _ => .simple
  | some _, none => .transformed
  | some _, some _ => .parameterized

def withKey (f : Filter) (key : String) : String :=
  match f.transformation, f.param with
  | none, _ => s!"{f.selector}({key})"
  | some t, none => s!"{t}({f.selector}({key}))"
  | some t, some p => s!"{t}({f.selector}({key}),{p})"

/-- The filter as a condition writes it. -/
def text (f : Filter) : String :=
  f.withKey f.key

def quoted (f : Filter) : String :=
  f.withKey s!"\"{f.key}\""

/-- The variable that stands for the filter in an expression. -/
def identifier (f : Filter) : String :=
  match f.transformation with
  | none => s!"{f.selector}_{f.key}"
  | some t => s!"{t}_{f.selector}_{f.key}"

end Filter

end Vigil

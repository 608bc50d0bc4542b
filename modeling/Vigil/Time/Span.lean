/-!
# Spans of time

A span is a whole number of nanoseconds from zero up to just under `2 ^ 64` seconds. Sums and
multiples beyond the longest span stay at it. A span is written in the largest of the units s, ms, µs
and ns of which it holds at least one, with as few decimals as its value needs.
-/

namespace Vigil

def nanosPerSecond : Nat := 1000000000

def nanosPerMilli : Nat := 1000000

/-- The nanoseconds of the longest span: `2 ^ 64` seconds less one nanosecond. -/
def maxSpanNanos : Nat := 18446744073709551616 * nanosPerSecond - 1

/-- A length of time. -/
structure Span where
  nanos : Nat
  le_max : nanos ≤ maxSpanNanos
  deriving DecidableEq

namespace Span

instance : LE Span := ⟨fun a b => a.nanos ≤ b.nanos⟩
instance : LT Span := ⟨fun a b => a.nanos < b.nanos⟩
instance (a b : Span) : Decidable (a ≤ b) := inferInstanceAs (Decidable (a.nanos ≤ b.nanos))
instance (a b : Span) : Decidable (a < b) := inferInstanceAs (Decidable (a.nanos < b.nanos))

/-- That many nanoseconds, or the longest span when there is none as long. -/
def ofNanos (n : Nat) : Span :=
  ⟨min n maxSpanNanos, Nat.min_le_right _ _⟩

/-- That many seconds, or the longest span when there is none as long. -/
def ofSeconds (n : Nat) : Span :=
  ofNanos (n * nanosPerSecond)

/-- That many milliseconds, or the longest span when there is none as long. -/
def ofMillis (n : Nat) : Span :=
  ofNanos (n * nanosPerMilli)

def zero : Span := ofNanos 0

def longest : Span := ofNanos maxSpanNanos

def seconds (s : Span) : Nat :=
  s.nanos / nanosPerSecond

def subsecNanos (s : Span) : Nat :=
  s.nanos % nanosPerSecond

def millis (s : Span) : Nat :=
  s.nanos / nanosPerMilli

def longer (a b : Span) : Span :=
  if a ≤ b then b else a

/-- `n` times the span, or the longest span. -/
def times (s : Span) (n : Nat) : Span :=
  ofNanos (s.nanos * n)

/-- The `n`th part of a span, rounded down to nanoseconds. -/
def part (s : Span) (n : Nat) : Span :=
  ⟨s.nanos / n, Nat.le_trans (Nat.div_le_self _ _) s.le_max⟩

/-- The digits of `fraction`, of which there are `width`, without the zeros at their end. -/
def fractionDigits (fraction width : Nat) : String :=
  let digits := toString fraction
  let padded := List.replicate (width - digits.length) '0' ++ digits.toList
  String.ofList (padded.reverse.dropWhile (· == '0')).reverse

/-- A count of units of `10 ^ width` nanoseconds each. -/
def inUnits (nanos width : Nat) (unit : String) : String :=
  let whole := nanos / Nat.pow 10 width
  let fraction := nanos % Nat.pow 10 width
  if fraction = 0 then s!"{whole}{unit}" else s!"{whole}.{fractionDigits fraction width}{unit}"

/-- The span in its largest unit. -/
def text (s : Span) : String :=
  if 1000000000 ≤ s.nanos then inUnits s.nanos 9 "s"
  else if 1000000 ≤ s.nanos then inUnits s.nanos 6 "ms"
  else if 1000 ≤ s.nanos then inUnits s.nanos 3 "µs"
  else inUnits s.nanos 0 "ns"

end Span

end Vigil

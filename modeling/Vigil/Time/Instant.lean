import Vigil.Time.Span

/-!
# Instants

An instant is a whole number of nanoseconds since the start of 1970 in UTC. Instants run from the
first day of the year -262143 to the last nanosecond of the year 262142; a sum or a difference outside
that range has no value. A span moves an instant by at most `2 ^ 63 - 1` milliseconds, which is further
than any two instants are apart. Whole seconds and milliseconds are rounded toward the past.
-/

namespace Vigil

def firstSecond : Int := -8334601228800

def lastSecond : Int := 8210266876799

def firstNano : Int := firstSecond * nanosPerSecond

def lastNano : Int := (lastSecond + 1) * nanosPerSecond - 1

/-- The longest move in time, in nanoseconds: `2 ^ 63 - 1` milliseconds. -/
def longestMove : Nat := 9223372036854775807 * nanosPerMilli

/-- How far a span moves an instant, in nanoseconds. -/
def Span.move (s : Span) : Nat :=
  min s.nanos longestMove

/-- A point in time. -/
structure Instant where
  nanos : Int
  first_le : firstNano ≤ nanos
  le_last : nanos ≤ lastNano
  deriving DecidableEq

namespace Instant

instance : LE Instant := ⟨fun a b => a.nanos ≤ b.nanos⟩
instance : LT Instant := ⟨fun a b => a.nanos < b.nanos⟩
instance (a b : Instant) : Decidable (a ≤ b) := inferInstanceAs (Decidable (a.nanos ≤ b.nanos))
instance (a b : Instant) : Decidable (a < b) := inferInstanceAs (Decidable (a.nanos < b.nanos))

/-- The instant that many nanoseconds after the start of 1970, if there is one. -/
def ofNanos? (n : Int) : Option Instant :=
  if h : firstNano ≤ n ∧ n ≤ lastNano then some ⟨n, h.1, h.2⟩ else none

def ofSeconds? (n : Int) : Option Instant :=
  ofNanos? (n * nanosPerSecond)

def ofMillis? (n : Int) : Option Instant :=
  ofNanos? (n * nanosPerMilli)

def epoch : Instant := ⟨0, by decide, by decide⟩

def first : Instant := ⟨firstNano, by decide, by decide⟩

def last : Instant := ⟨lastNano, by decide, by decide⟩

def seconds (t : Instant) : Int :=
  t.nanos / nanosPerSecond

def subsecNanos (t : Instant) : Nat :=
  (t.nanos % nanosPerSecond).toNat

def millis (t : Instant) : Int :=
  t.nanos / nanosPerMilli

def add? (t : Instant) (s : Span) : Option Instant :=
  ofNanos? (t.nanos + s.move)

def sub? (t : Instant) (s : Span) : Option Instant :=
  ofNanos? (t.nanos - s.move)

/-- The instant a span earlier, or the first instant when there is none so early. -/
def back (t : Instant) (s : Span) : Instant :=
  (t.sub? s).getD first

/-- The span from `a` to `b`, nothing when `b` is earlier. -/
def spanTo (a b : Instant) : Span :=
  Span.ofNanos (b.nanos - a.nanos).toNat

/-- Later instants come first. -/
def newerFirst (a b : Instant) : Bool :=
  decide (b ≤ a)

end Instant

end Vigil

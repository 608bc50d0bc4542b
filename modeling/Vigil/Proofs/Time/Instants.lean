import Mathlib.Order.Defs.LinearOrder
import Vigil.Time.Instant

/-!
# Arithmetic of spans and instants

What spans and instants are in nanoseconds. Going back in time ends at the first instant; the distance
of two instants always fits into a span.
-/

namespace Vigil

namespace Span

variable {s r : Span} {n : Nat}

theorem ext (h : s.nanos = r.nanos) : s = r := by
  cases s
  cases r
  cases h
  rfl

theorem le_def : s ≤ r ↔ s.nanos ≤ r.nanos := Iff.rfl

theorem nanos_ofNanos (h : n ≤ maxSpanNanos) : (ofNanos n).nanos = n :=
  Nat.min_eq_left h

theorem nanos_ofSeconds (h : n < 18446744073709551616) : (ofSeconds n).nanos = n * nanosPerSecond := by
  refine nanos_ofNanos ?_
  rw [maxSpanNanos, nanosPerSecond]
  omega

theorem nanos_times (h : s.nanos * n ≤ maxSpanNanos) : (s.times n).nanos = s.nanos * n :=
  nanos_ofNanos h

theorem nanos_longer (s r : Span) : (s.longer r).nanos = max s.nanos r.nanos := by
  unfold longer
  split
  · rename_i h
    exact (Nat.max_eq_right h).symm
  · rename_i h
    exact (Nat.max_eq_left (Nat.le_of_not_le h)).symm

theorem nanos_part (s : Span) (n : Nat) : (s.part n).nanos = s.nanos / n := rfl

end Span

namespace Instant

variable {t u : Instant} {s : Span} {n : Int}

theorem ext (h : t.nanos = u.nanos) : t = u := by
  cases t
  cases u
  cases h
  rfl

theorem le_def : t ≤ u ↔ t.nanos ≤ u.nanos := Iff.rfl

theorem lt_def : t < u ↔ t.nanos < u.nanos := Iff.rfl

instance : Std.Irrefl (fun t u : Instant => t < u) := ⟨fun _ h => Int.lt_irrefl _ h⟩

instance : Std.Asymm (fun t u : Instant => t < u) := ⟨fun _ _ h h' => Int.lt_asymm h h'⟩

theorem ofNanos?_eq_some : ofNanos? n = some t ↔ t.nanos = n := by
  unfold ofNanos?
  constructor
  · intro h
    split at h
    · cases h
      rfl
    · cases h
  · rintro rfl
    rw [dif_pos ⟨t.first_le, t.le_last⟩]

theorem ofSeconds?_eq_some : ofSeconds? n = some t ↔ t.nanos = n * nanosPerSecond :=
  ofNanos?_eq_some

theorem nanos_bounds (t : Instant) :
    -8334601228800000000000 ≤ t.nanos ∧ t.nanos < 8210266876800000000000 := by
  have hfirst := t.first_le
  have hlast := t.le_last
  simp only [firstNano, firstSecond, lastNano, lastSecond, nanosPerSecond] at hfirst hlast
  omega

theorem ofNanos?_eq_none (h : n < firstNano ∨ lastNano < n) : ofNanos? n = none :=
  dif_neg (by omega)

/-- The bound of a move does not matter: beyond it there are no instants. -/
theorem add?_eq (t : Instant) (s : Span) : t.add? s = ofNanos? (t.nanos + s.nanos) := by
  have hbounds := t.nanos_bounds
  rcases Nat.le_total s.nanos longestMove with hle | hle
  · rw [add?, Span.move, Nat.min_eq_left hle]
  · rw [add?, Span.move, Nat.min_eq_right hle]
    simp only [longestMove, nanosPerMilli] at hle ⊢
    rw [ofNanos?_eq_none, ofNanos?_eq_none] <;> right <;>
      simp only [lastNano, lastSecond, nanosPerSecond] <;> omega

theorem sub?_eq (t : Instant) (s : Span) : t.sub? s = ofNanos? (t.nanos - s.nanos) := by
  have hbounds := t.nanos_bounds
  rcases Nat.le_total s.nanos longestMove with hle | hle
  · rw [sub?, Span.move, Nat.min_eq_left hle]
  · rw [sub?, Span.move, Nat.min_eq_right hle]
    simp only [longestMove, nanosPerMilli] at hle ⊢
    rw [ofNanos?_eq_none, ofNanos?_eq_none] <;> left <;>
      simp only [firstNano, firstSecond, nanosPerSecond] <;> omega

theorem sub?_eq_some : t.sub? s = some u ↔ u.nanos = t.nanos - s.nanos := by
  rw [sub?_eq, ofNanos?_eq_some]

/-- Going back ends at the first instant. -/
theorem nanos_back (t : Instant) (s : Span) :
    (t.back s).nanos = max (t.nanos - s.nanos) firstNano := by
  have hlast := t.le_last
  rw [back, sub?_eq]
  unfold ofNanos?
  split
  · rename_i h
    exact (Int.max_eq_left h.1).symm
  · rename_i h
    show firstNano = _
    exact (Int.max_eq_right (by omega)).symm

theorem back_of_sub? (h : t.sub? s = some u) : t.back s = u := by
  rw [back, h]
  rfl

theorem le_of_sub? (h : t.sub? s = some u) : u ≤ t := by
  rw [le_def, sub?_eq_some.mp h]
  omega

theorem back_le (t : Instant) (s : Span) : t.back s ≤ t := by
  have hfirst := t.first_le
  rw [le_def, nanos_back]
  omega

theorem back_of_nanos_eq_zero (h : s.nanos = 0) : t.back s = t := by
  have hfirst := t.first_le
  apply ext
  rw [nanos_back, h]
  omega

theorem nanos_spanTo (t u : Instant) : (t.spanTo u).nanos = (u.nanos - t.nanos).toNat := by
  have hearly := t.nanos_bounds
  have hlate := u.nanos_bounds
  refine Span.nanos_ofNanos ?_
  rw [maxSpanNanos, nanosPerSecond]
  omega

theorem seconds_of_nanos (h : t.nanos = n * nanosPerSecond) : t.seconds = n := by
  rw [seconds, h, nanosPerSecond]
  omega

end Instant

end Vigil

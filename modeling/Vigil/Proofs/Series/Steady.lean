import Vigil.Proofs.Series.Times

/-!
# Steady series

A series is steady when all its points have one value and lie at least a second apart. Every
transformation of a steady series has an output at each point that enough inputs come before, the rate
of change that must not be negative included: the difference of a float and itself is zero or no
number, a factor or a divisor leaves it so, and neither is below zero.
-/

namespace Vigil

namespace Decimal

open Float.Model (UnpackedFloat Format)

variable {x : Float}

/-- The float is a zero or no number. -/
def Vanishes (x : Float) : Prop :=
  x.toModel.unpack = .notANumber ∨ ∃ sign, x.toModel.unpack = .zero sign

theorem vanishes_of_unpacked {u : UnpackedFloat} (h : u = .notANumber ∨ ∃ sign, u = .zero sign) :
    Vanishes (.ofModel (Float.Model.pack u)) := by
  rcases h with rfl | ⟨sign, rfl⟩
  · exact .inl rfl
  · cases sign with
    | positive => exact .inr ⟨_, rfl⟩
    | negative => exact .inr ⟨_, rfl⟩

theorem vanishes_sub_self (x : Float) : Vanishes (x - x) := by
  refine vanishes_of_unpacked ?_
  show UnpackedFloat.sub Format.binary64 x.toModel.unpack x.toModel.unpack = _ ∨ _
  cases x.toModel.unpack with
  | notANumber => exact .inl rfl
  | infinity sign => cases sign <;> exact .inl rfl
  | zero sign => cases sign <;> exact .inr ⟨_, rfl⟩
  | finite sign mantissa exponent hpos =>
    refine .inr ⟨.positive, ?_⟩
    show UnpackedFloat.normalize _ (_ - _) _ .positive = _
    rw [Int.sub_self]
    rfl

theorem Vanishes.mul (h : Vanishes x) (y : Float) : Vanishes (x * y) := by
  refine vanishes_of_unpacked ?_
  show UnpackedFloat.mul Format.binary64 x.toModel.unpack y.toModel.unpack = _ ∨ _
  rcases h with h | ⟨sign, h⟩
  · rw [h]
    exact .inl rfl
  · rw [h]
    cases y.toModel.unpack with
    | notANumber => exact .inl rfl
    | infinity _ => exact .inl rfl
    | zero _ => exact .inr ⟨_, rfl⟩
    | finite => exact .inr ⟨_, rfl⟩

theorem Vanishes.div (h : Vanishes x) (y : Float) : Vanishes (x / y) := by
  refine vanishes_of_unpacked ?_
  show UnpackedFloat.div Format.binary64 x.toModel.unpack y.toModel.unpack = _ ∨ _
  rcases h with h | ⟨sign, h⟩
  · rw [h]
    exact .inl rfl
  · rw [h]
    cases y.toModel.unpack with
    | notANumber => exact .inl rfl
    | infinity _ => exact .inr ⟨_, rfl⟩
    | zero _ => exact .inl rfl
    | finite => exact .inr ⟨_, rfl⟩

theorem Vanishes.not_neg (h : Vanishes x) : ¬ x < 0.0 := by
  intro hlt
  have hlt : UnpackedFloat.lt x.toModel.unpack (0.0 : Float).toModel.unpack = true :=
    of_decide_eq_true hlt
  have hzero : (0.0 : Float).toModel.unpack = .zero .positive := by rfl
  rw [hzero] at hlt
  rcases h with h | ⟨sign, h⟩
  · rw [h] at hlt
    exact absurd hlt (by decide)
  · rw [h] at hlt
    cases sign <;> exact absurd hlt (by decide)

end Decimal

/-- All points have one value and lie at least a second apart. -/
def Series.Steady (series : Series) : Prop :=
  series.Pairwise fun a b : Point =>
    a.value = b.value ∧ a.time.nanos + nanosPerSecond ≤ b.time.nanos

namespace Transformation

variable {series : Series} {a b : Point}

theorem rel_of_mem_neighbours {R : Point → Point → Prop} (h : series.Pairwise R)
    (hmem : (a, b) ∈ neighbours series) : R a b := by
  induction series with
  | nil => cases hmem
  | cons p rest ih =>
    obtain ⟨hfirst, hrest⟩ := List.pairwise_cons.mp h
    cases rest with
    | nil => cases hmem
    | cons q rest =>
      rcases List.mem_cons.mp (show (a, b) ∈ (p, q) :: neighbours (q :: rest) from hmem) with
        heq | hmem
      · cases heq
        exact hfirst b List.mem_cons_self
      · exact ih hrest hmem

/-- Outputs that are made of every pair of neighbours have the times of the second ones. -/
theorem times_filterMap_neighbours_of_isSome {make : Point × Point → Option Point}
    (h : ∀ a b, (a, b) ∈ neighbours series → ∃ value, make (a, b) = some ⟨b.time, value⟩) :
    Series.times ((neighbours series).filterMap make) = series.times.drop 1 := by
  rw [← times_neighbours, Series.times, List.map_filterMap, ← List.filterMap_eq_map]
  refine List.filterMap_congr ?_
  rintro ⟨a, b⟩ hmem
  obtain ⟨value, hmake⟩ := h a b hmem
  simp [hmake]

/-- Between points of a steady series there is a rate, and it vanishes. -/
theorem rate?_of_steady (h : series.Steady) (unit : Nat) (hmem : (a, b) ∈ neighbours series) :
    ∃ value, rate? unit a b = some ⟨b.time, value⟩ ∧ Decimal.Vanishes value := by
  obtain ⟨hvalue, hgap⟩ := rel_of_mem_neighbours h hmem
  have helapsed : 0 < (b.time.nanos - a.time.nanos).tdiv nanosPerMilli := by
    rw [nanosPerSecond] at hgap
    rw [nanosPerMilli, Int.tdiv_eq_ediv_of_nonneg (by omega)]
    omega
  refine ⟨_, if_neg (Int.not_le.mpr helapsed), ?_⟩
  rw [hvalue]
  exact (((Decimal.vanishes_sub_self _).mul _).mul _).div _

/-- Every output of a steady series is there that has its inputs. -/
theorem times_apply_of_steady (h : series.Steady) (transformation : Transformation)
    (param : Option Int) :
    Series.times (transformation.apply series param) =
      series.times.drop (transformation.before param) := by
  cases transformation with
  | derivative =>
    refine times_filterMap_neighbours_of_isSome ?_
    intro a b hmem
    obtain ⟨value, hrate, -⟩ := rate?_of_steady h (atLeastOne param 1) hmem
    exact ⟨value, hrate⟩
  | nonNegativeDerivative =>
    refine times_filterMap_neighbours_of_isSome ?_
    intro a b hmem
    obtain ⟨value, hrate, hvanishes⟩ := rate?_of_steady h (atLeastOne param 1) hmem
    refine ⟨value, ?_⟩
    show (rate? (atLeastOne param 1) a b).filter _ = _
    rw [hrate, Option.filter_some, decide_eq_false hvanishes.not_neg]
    rfl
  | difference =>
    rw [apply, ← List.filterMap_eq_map]
    exact times_filterMap_neighbours_of_isSome fun a b _ => ⟨_, rfl⟩
  | movingAverage => exact times_apply_movingAverage series param
  | cumulativeSum => exact times_sums 0.0 series

end Transformation

end Vigil

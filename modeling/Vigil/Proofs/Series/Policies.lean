import Mathlib.Data.List.Nodup
import Vigil.Proofs.Series.Planning

/-!
# Which policy a plan picks

Policies in strictly ascending order are searched from the shortest on, so the first that reaches back far
enough is the shortest that does. A plan fails exactly if none does; otherwise it says how far apart the
points of the answer lie, in exact arithmetic.
-/

namespace Vigil

namespace Policy

variable {policies : List Policy} {p q : Policy} {start earlier now : Instant}

def Ascending (policies : List Policy) : Prop :=
  policies.Pairwise fun p q => p.duration < q.duration

theorem validateNeighbours_eq_ok_iff : validateNeighbours policies = .ok () ↔ Ascending policies := by
  induction policies with
  | nil => exact iff_of_true rfl .nil
  | cons p rest ih =>
    cases rest with
    | nil => exact iff_of_true rfl (List.pairwise_singleton _ _)
    | cons q rest =>
      rw [validateNeighbours, Ascending, List.pairwise_cons]
      by_cases hpq : p.duration < q.duration
      · rw [if_pos hpq, ih]
        refine ⟨fun h => ⟨?_, h⟩, fun h => h.2⟩
        -- what is longer than the second is longer than the first
        intro s hs
        rcases List.mem_cons.mp hs with rfl | hs
        · exact hpq
        · exact Nat.lt_trans hpq ((List.pairwise_cons.mp h).1 s hs)
      · rw [if_neg hpq]
        exact iff_of_false nofun fun h => hpq (h.1 q List.mem_cons_self)

theorem validateOrder_eq_ok_iff :
    validateOrder policies = .ok () ↔ policies ≠ [] ∧ Ascending policies := by
  cases policies with
  | nil => exact iff_of_false nofun fun h => h.1 rfl
  | cons p rest =>
    rw [← validateNeighbours_eq_ok_iff]
    exact (and_iff_right (List.cons_ne_nil p rest)).symm

/-- The policy keeps what was measured at `start` until `now`. -/
def Reaches (p : Policy) (start now : Instant) : Prop :=
  now.nanos - start.nanos ≤ p.duration.nanos

/-- Of the policies that reach back to `start`, this one lasts the least. -/
structure IsShortest (policies : List Policy) (start now : Instant) (p : Policy) : Prop where
  mem : p ∈ policies
  reaches : p.Reaches start now
  le : ∀ q ∈ policies, q.Reaches start now → p.duration ≤ q.duration

theorem spanTo_le_duration_iff : start.spanTo now ≤ p.duration ↔ p.Reaches start now := by
  rw [Span.le_def, Instant.nanos_spanTo, Int.toNat_le]
  exact Iff.rfl

theorem select_of_none (h : ∀ p ∈ policies, ¬ p.Reaches start now) :
    select policies start now = .error (.uncovered (start.spanTo now)) := by
  have hnone : policies.find? (fun p => start.spanTo now ≤ p.duration) = none := by
    refine List.find?_eq_none.mpr fun p hp hreaches => h p hp ?_
    exact spanTo_le_duration_iff.mp (of_decide_eq_true hreaches)
  rw [select, hnone]

/-- The first policy that reaches back far enough is the shortest that does. -/
theorem isShortest_of_select (hascending : Ascending policies)
    (h : select policies start now = .ok p) : IsShortest policies start now p := by
  unfold select at h
  dsimp only at h
  split at h
  · rename_i found hfound
    cases h
    obtain ⟨hreaches, shorter, longer, rfl, hshorter⟩ := List.find?_eq_some_iff_append.mp hfound
    obtain ⟨-, hlonger, -⟩ := List.pairwise_append.mp hascending
    refine ⟨by simp, spanTo_le_duration_iff.mp (of_decide_eq_true hreaches), fun q hq hback => ?_⟩
    rcases List.mem_append.mp hq with hq | hq
    · have hnot := hshorter q hq
      rw [decide_eq_true (spanTo_le_duration_iff.mpr hback)] at hnot
      cases hnot
    · rcases List.mem_cons.mp hq with rfl | hq
      · exact Nat.le_refl _
      · exact Nat.le_of_lt ((List.pairwise_cons.mp hlonger).1 q hq)
  · cases h

theorem exists_select (h : ∃ p ∈ policies, p.Reaches start now) :
    ∃ p, select policies start now = .ok p := by
  obtain ⟨p, hp, hreaches⟩ := h
  have hsome : (policies.find? fun p => start.spanTo now ≤ p.duration).isSome := by
    rw [List.find?_isSome]
    exact ⟨p, hp, decide_eq_true (spanTo_le_duration_iff.mpr hreaches)⟩
  obtain ⟨found, hfound⟩ := Option.isSome_iff_exists.mp hsome
  exact ⟨found, by rw [select, hfound]⟩

/-- Of ascending policies only one is the shortest that reaches back far enough, and it is picked. -/
theorem select_eq_ok_iff (hascending : Ascending policies) :
    select policies start now = .ok p ↔ IsShortest policies start now p := by
  refine ⟨isShortest_of_select hascending, fun h => ?_⟩
  obtain ⟨found, hfound⟩ := exists_select ⟨p, h.mem, h.reaches⟩
  have hshortest := isShortest_of_select hascending hfound
  have hsame : found.duration.nanos = p.duration.nanos :=
    Nat.le_antisymm (hshortest.le p h.mem h.reaches) (h.le found hshortest.mem hshortest.reaches)
  have hnodup : (policies.map fun q => q.duration.nanos).Nodup :=
    List.pairwise_map.mpr (hascending.imp fun hlt => Nat.ne_of_lt hlt)
  rw [hfound, List.inj_on_of_nodup_map hnodup hshortest.mem h.mem hsame]

/-- A range of the future is the first policy's. -/
theorem head?_of_select (h : select policies start now = .ok p) (hfuture : now < start) :
    policies.head? = some p := by
  cases policies with
  | nil => cases h
  | cons q rest =>
    have hreaches : q.Reaches start now := by
      have hlt := Instant.lt_def.mp hfuture
      rw [Reaches]
      omega
    have hfirst : (q :: rest).find? (fun p => start.spanTo now ≤ p.duration) = some q :=
      List.find?_cons_of_pos (decide_eq_true (spanTo_le_duration_iff.mpr hreaches))
    rw [select, hfirst] at h
    cases h
    rfl

/-- Further back no shorter policy is picked. -/
theorem duration_le_of_earlier (hascending : Ascending policies) (hearlier : earlier ≤ start)
    (h : select policies start now = .ok p) (hback : select policies earlier now = .ok q) :
    p.duration ≤ q.duration := by
  obtain ⟨hmem, hreaches, -⟩ := isShortest_of_select hascending hback
  refine (isShortest_of_select hascending h).le q hmem ?_
  have hle := Instant.le_def.mp hearlier
  rw [Reaches] at hreaches ⊢
  omega

end Policy

namespace Reader

variable {r : Reader} {source : Source} {filters : List Filter} {start stop now : Instant} {n : Nat}

/-- A plan fails because of its policies exactly if each of them is too short. -/
theorem plan_uncovered_iff (hrange : start ≤ stop) :
    (∃ requested, r.plan source filters start stop n now = .error (.uncovered requested)) ↔
      ∀ p ∈ r.policies, ¬ p.Reaches start now := by
  constructor
  · rintro ⟨requested, hplan⟩ p hp hreaches
    obtain ⟨found, hfound⟩ := Policy.exists_select ⟨p, hp, hreaches⟩
    rw [plan_of_select hrange hfound] at hplan
    cases hplan
  · exact fun h => ⟨_, plan_of_select_error hrange (Policy.select_of_none h)⟩

/-- What a plan is, for a reader of at most `m` points under policies in order: a refusal of a range that
ends before it begins, a failure exactly when the range begins further back than every policy lasts, and
otherwise the shortest policy that reaches back to its beginning, the distance of the points and their
number. The points are a part of the range apart, rounded down to nanoseconds, but no less than a second
and than the policy keeps them. Further back no shorter policy is picked. -/
theorem plan_settled {policies : List Policy} (hvalid : Policy.validateOrder policies = .ok ())
    (m : Nat) (source : Source) (filters : List Filter) (n : Nat) (now : Instant) :
    let r := (ofPolicies policies).withMaxPoints m
    let most := min (max m 1) 300
    (∀ start stop : Instant, stop < start →
      r.plan source filters start stop n now = .error (.invalid .rangeReversed)) ∧
    (∀ start stop : Instant, start ≤ stop →
      ((∃ requested, r.plan source filters start stop n now = .error (.uncovered requested)) ↔
        ∀ p ∈ policies, (p.duration.nanos : Int) < now.nanos - start.nanos) ∧
      (∀ requested, r.plan source filters start stop n now = .error (.uncovered requested) →
        (requested.nanos : Int) = now.nanos - start.nanos) ∧
      ((∃ p ∈ policies, now.nanos - start.nanos ≤ p.duration.nanos) →
        ∃ p interval, Policy.IsShortest policies start now p ∧
          (now < start → policies.head? = some p) ∧ Policy.select policies start now = .ok p ∧
          p.interval? start stop n most = some interval ∧
          interval.nanos = max nanosPerSecond (max p.samplingRate.nanos
            ((stop.nanos - start.nanos).toNat / min (max n 1) most)) ∧
          min n most ≤ 300 ∧
          r.plan source filters start stop n now =
            .ok { source, filters, start, stop, interval, limit := min n most, retention := p.name })) ∧
    ∀ (start earlier : Instant) (p q : Policy), earlier ≤ start →
      Policy.select policies start now = .ok p → Policy.select policies earlier now = .ok q →
        p.duration ≤ q.duration := by
  intro r most
  obtain ⟨hne, hascending⟩ := Policy.validateOrder_eq_ok_iff.mp hvalid
  refine ⟨fun start stop hreversed => ?_, fun start stop hrange => ⟨?_, ?_, ?_⟩, ?_⟩
  · rw [plan, if_pos hreversed]
    rfl
  · rw [plan_uncovered_iff hrange]
    exact forall₂_congr fun p _ => Int.not_le
  · intro requested hplan
    have hnone := (plan_uncovered_iff hrange).mp ⟨requested, hplan⟩
    rw [plan_of_select_error hrange (Policy.select_of_none hnone)] at hplan
    cases hplan
    obtain ⟨p, hp⟩ := List.exists_mem_of_ne_nil policies hne
    have hlong : (p.duration.nanos : Int) < now.nanos - start.nanos := Int.not_le.mp (hnone p hp)
    rw [Instant.nanos_spanTo]
    omega
  · intro hcovered
    obtain ⟨p, hp⟩ := Policy.exists_select hcovered
    have hinterval : p.interval? start stop n most = some (r.interval p start stop n) :=
      (Option.some_get _).symm
    refine ⟨p, _, Policy.isShortest_of_select hascending hp, Policy.head?_of_select hp, hp, hinterval,
      ?_, Nat.le_trans (Nat.min_le_right _ _) (Nat.min_le_right _ _), plan_of_select hrange hp⟩
    rw [nanos_interval_clamped, Instant.nanos_spanTo, Nat.max_comm, Nat.max_comm p.samplingRate.nanos]
    rfl
  · intro start earlier p q hearlier hp hq
    exact Policy.duration_le_of_earlier hascending hearlier hp hq

/-- A number of seconds after the start of 1970, or that start when there is no such time. -/
def secondsIn (n : Nat) : Instant :=
  (Instant.ofSeconds? n).getD .epoch

/-- Five points of five minutes are a minute apart under the policy of one day; four thousand days back no
policy reaches. -/
theorem plan_of_five_minutes :
    let r := (ofPolicies Policy.defaults).withMaxPoints 10000
    Policy.validateOrder Policy.defaults = .ok () ∧
    (∃ q, r.plan (.group "g") [] .epoch (secondsIn 300) 5 (secondsIn 300) = .ok q ∧
      q.interval.nanos = 60000000000 ∧ q.limit = 5 ∧ q.retention = "1-day") ∧
    ∃ requested, r.plan (.group "g") [] .epoch (secondsIn 345600000) 5 (secondsIn 345600000) =
      .error (.uncovered requested) := by
  intro r
  have hvalid : Policy.validateOrder Policy.defaults = .ok () := rfl
  have hday : Policy.select Policy.defaults .epoch (secondsIn 300) =
      .ok ⟨"1-day", .ofSeconds Policy.daySeconds, .zero⟩ := rfl
  obtain ⟨-, hnear, -⟩ := plan_settled hvalid 10000 (.group "g") [] 5 (secondsIn 300)
  obtain ⟨-, hfar, -⟩ := plan_settled hvalid 10000 (.group "g") [] 5 (secondsIn 345600000)
  obtain ⟨p, interval, -, -, hp, -, hinterval, -, hplan⟩ :=
    (hnear .epoch (secondsIn 300) (by decide)).2.2 ⟨_, List.mem_cons_self, by decide⟩
  cases hp.symm.trans hday
  refine ⟨hvalid, ⟨_, hplan, hinterval, rfl, rfl⟩, ?_⟩
  exact (hfar .epoch (secondsIn 345600000) (by decide)).1.mpr (by decide)

end Reader

end Vigil

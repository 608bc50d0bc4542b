import Vigil.Proofs.Alarm.Definition
import Vigil.Proofs.Runner.Episodes
import Vigil.Proofs.Series.Planning
import Vigil.Proofs.Series.Trimming
import Vigil.Proofs.Store.Points

/-!
# The window of an alarm

An alarm that needs `n` points looks back over `n` of its run intervals. When a policy that is dense
enough covers this window, the points are planned exactly one run interval apart, so the window meets
`n + 1` buckets, and the last `n` of them are what the evaluation looks at. The policy is picked when the
read is planned, by when the clock may have moved on.
-/

namespace Vigil

namespace Alarm

variable {a : Alarm} {r : Reader} {now later start : Instant} {policy : Policy}

namespace Sound

theorem nanos_runInterval (h : a.Sound) : ∃ seconds : Nat, 1 ≤ seconds ∧ seconds ≤ Draft.maxInterval ∧
    a.runInterval.nanos = seconds * nanosPerSecond := by
  obtain ⟨seconds, hpos, hle, hinterval⟩ := h.interval
  refine ⟨seconds, hpos, hle, ?_⟩
  rw [hinterval, Span.nanos_ofSeconds]
  simp only [Draft.maxInterval] at hle
  omega

theorem nanos_window (h : a.Sound) :
    (a.runInterval.times a.rule.trigger).nanos = a.runInterval.nanos * a.rule.trigger := by
  obtain ⟨seconds, -, hle, hnanos⟩ := h.nanos_runInterval
  have htrigger := h.trigger_le
  refine Span.nanos_times ?_
  rw [hnanos]
  calc seconds * nanosPerSecond * a.rule.trigger
      ≤ Draft.maxInterval * nanosPerSecond * maxPointsCap :=
        Nat.mul_le_mul (Nat.mul_le_mul_right _ hle) htrigger
    _ ≤ maxSpanNanos := by decide

theorem window_eq (h : a.Sound) :
    a.window now = (now.back (a.runInterval.times a.rule.trigger), now) := by
  have htrigger := h.trigger_le
  simp only [maxPointsCap] at htrigger
  rw [window, Nat.min_eq_left (by simp only [maxWindowTrigger]; omega)]

theorem nanos_start (h : a.Sound)
    (hstart : now.sub? (a.runInterval.times a.rule.trigger) = some start) :
    now.nanos - start.nanos = a.rule.trigger * a.runInterval.nanos := by
  rw [Instant.sub?_eq_some.mp hstart, h.nanos_window, Nat.mul_comm]
  push_cast
  omega

end Sound

/-- The query for the window of an alarm when as many points may be read as it needs. -/
def query (a : Alarm) (policy : Policy) (start now : Instant) : Query where
  source := .group a.group
  filters := a.rule.filters
  start := start
  stop := now
  interval := a.runInterval.longer policy.samplingRate
  limit := a.rule.trigger
  retention := policy.name

/-- The points are planned a run interval apart, or as far apart as the policy keeps them. -/
theorem Sound.interval_eq (h : a.Sound)
    (hstart : now.sub? (a.runInterval.times a.rule.trigger) = some start)
    (htrigger : a.rule.trigger ≤ r.maxPoints) :
    r.interval policy start now a.rule.trigger = a.runInterval.longer policy.samplingRate := by
  obtain ⟨seconds, hpos, -, hnanos⟩ := h.nanos_runInterval
  have hspan : (start.spanTo now).nanos = a.rule.trigger * a.runInterval.nanos := by
    rw [Instant.nanos_spanTo, h.nanos_start hstart]
    rfl
  have hleast : nanosPerSecond ≤ a.runInterval.nanos := by
    rw [hnanos]
    exact Nat.le_mul_of_pos_left _ hpos
  apply Span.ext
  rw [Reader.nanos_interval h.one_le_trigger, Nat.min_eq_left htrigger, hspan,
    Nat.mul_div_cancel_left _ h.one_le_trigger, Span.nanos_longer]
  omega

theorem Sound.plan_eq (h : a.Sound)
    (hstart : now.sub? (a.runInterval.times a.rule.trigger) = some start)
    (hselect : Policy.select r.policies start later = .ok policy)
    (htrigger : a.rule.trigger ≤ r.maxPoints) :
    r.plan (.group a.group) a.rule.filters start now a.rule.trigger later =
      .ok (a.query policy start now) := by
  rw [Reader.plan_of_select (Instant.le_of_sub? hstart) hselect, h.interval_eq hstart htrigger,
    Nat.min_eq_left htrigger]
  rfl

section Evaluation

variable {σ : Type} [Repository σ] {store : σ} {q : Query} {trimmed : List Series}

theorem Sound.valuate_eq (h : a.Sound) {e : Expression}
    (hstart : now.sub? (a.runInterval.times a.rule.trigger) = some start)
    (he : a.expression = .ok e) : a.valuate r store now later =
      r.read store (.group a.group) a.rule.filters start now a.rule.trigger later >>=
        fun batch => Valuation.ofBatch e batch a.rule.trigger := by
  have hwindow : a.window now = (start, now) := by
    rw [h.window_eq, Instant.back_of_sub? hstart]
  unfold valuate
  rw [he, hwindow]
  rfl

/-- An alarm is evaluated at the times that the series of its filters share. -/
theorem Sound.valuate_of_query (h : a.Sound)
    (hstart : now.sub? (a.runInterval.times a.rule.trigger) = some start)
    (hplan : r.plan (.group a.group) a.rule.filters start now a.rule.trigger later = .ok q)
    (hquery : Repository.query store q = .ok trimmed)
    (hlength : a.rule.filters.length = trimmed.length)
    (hascending : ∀ series ∈ trimmed, series.times.Pairwise (· < ·)) :
    ∃ e batch, r.read store (.group a.group) a.rule.filters start now a.rule.trigger later = .ok batch ∧
      batch.names.Perm (a.rule.filters.map Filter.identifier) ∧
      (∀ series ∈ batch.values, series.times = Batch.shared trimmed) ∧
      Valuation.available batch = (Batch.shared trimmed).length ∧
      a.valuate r store now later = Valuation.ofBatch e batch a.rule.trigger := by
  obtain ⟨e, he⟩ := h.compiles
  obtain ⟨batch, hbatch, hnames, hshared, -⟩ :=
    Batch.exists_assemble_times h.nodup_identifiers hlength hascending
  have hread : r.read store (.group a.group) a.rule.filters start now a.rule.trigger later =
      .ok batch := by
    rw [Reader.read, hplan]
    show (Repository.query store q >>= _) = _
    rw [hquery]
    exact hbatch
  have hnone : a.rule.filters.map Filter.identifier ≠ [] := by simpa using h.filters_ne_nil
  refine ⟨e, batch, hread, hnames, hshared, Valuation.available_of_times hnames hnone hshared, ?_⟩
  rw [h.valuate_eq hstart he, hread]
  rfl

variable [KeepsPoints σ] {series : Filter → Series} {last : List Int}

/-- An alarm whose filters all end with the same times, as many as it needs, is evaluated at these. -/
theorem Sound.valuate_of_last (h : a.Sound)
    (hstart : now.sub? (a.runInterval.times a.rule.trigger) = some start)
    (hselect : Policy.select r.policies start later = .ok policy)
    (htrigger : a.rule.trigger ≤ r.maxPoints)
    (hseries : ∀ f ∈ a.rule.filters,
      KeepsPoints.wholeSeries store (a.query policy start now) f = .ok (series f))
    (hlast : ∀ f ∈ a.rule.filters,
      Query.lastOf a.rule.trigger ((series f).times.map Instant.nanos) = last)
    (hcount : last.length = a.rule.trigger) :
    ∃ e batch, r.read store (.group a.group) a.rule.filters start now a.rule.trigger later = .ok batch ∧
      batch.names.Perm (a.rule.filters.map Filter.identifier) ∧
      (∀ series ∈ batch.values, series.times.map Instant.nanos = last) ∧
      Valuation.available batch = a.rule.trigger ∧
      a.valuate r store now later = Valuation.ofBatch e batch a.rule.trigger := by
  have hall : List.Forall₂ (fun f series =>
      KeepsPoints.wholeSeries store (a.query policy start now) f = .ok series)
      (a.query policy start now).filters (a.rule.filters.map series) :=
    List.forall₂_map_right_iff.mpr (List.forall₂_same.mpr hseries)
  have hnanos : ∀ f ∈ a.rule.filters,
      (Series.times (Query.lastOf a.rule.trigger (series f))).map Instant.nanos = last := by
    intro f hf
    rw [Batch.times_lastOf, Query.map_lastOf, hlast f hf]
  obtain ⟨f₀, hf₀⟩ := List.exists_mem_of_ne_nil _ h.filters_ne_nil
  obtain ⟨raw, -, hraw⟩ := KeepsPoints.wholeSeries_eq_ok_iff.mp (hseries f₀ hf₀)
  have hascending : (Series.times (Query.lastOf a.rule.trigger (series f₀))).Pairwise (· < ·) := by
    rw [Batch.times_lastOf]
    exact (Query.ascending_unlimited hraw).sublist (List.drop_sublist _ _)
  have hinjective : Function.Injective Instant.nanos := fun _ _ => Instant.ext
  have hsame : ∀ kept ∈ (a.rule.filters.map series).map (Query.lastOf a.rule.trigger),
      Series.times kept = Series.times (Query.lastOf a.rule.trigger (series f₀)) := by
    intro kept hkept
    obtain ⟨whole, hwhole, rfl⟩ := List.mem_map.mp hkept
    obtain ⟨f, hf, rfl⟩ := List.mem_map.mp hwhole
    exact List.map_injective_iff.mpr hinjective ((hnanos f hf).trans (hnanos f₀ hf₀).symm)
  obtain ⟨e, batch, hread, hnames, htimes, havailable, hvaluate⟩ :=
    h.valuate_of_query hstart
      (h.plan_eq hstart hselect htrigger) (KeepsPoints.query_of_wholeSeries hall) (by simp)
      (by
        intro kept hkept
        rwa [hsame kept hkept])
  have hne : (a.rule.filters.map series).map (Query.lastOf a.rule.trigger) ≠ [] := by
    simpa using h.filters_ne_nil
  rw [show (a.query policy start now).limit = a.rule.trigger from rfl,
    Batch.shared_of_times hne hsame] at htimes havailable
  refine ⟨e, batch, hread, hnames, ?_, ?_, hvaluate⟩
  · intro kept hkept
    rw [htimes kept hkept, hnanos f₀ hf₀]
  · have hsame := congrArg List.length (hnanos f₀ hf₀)
    rw [List.length_map, hcount] at hsame
    rw [havailable, hsame]

end Evaluation

/-- Under a policy that keeps points densely enough, buckets last as long as a run interval. -/
theorem Sound.bucketSeconds_eq (h : a.Sound) (start now : Instant)
    (hrate : policy.samplingRate ≤ a.runInterval) :
    (a.query policy start now).interval = a.runInterval ∧
      (a.query policy start now).bucketSeconds * nanosPerSecond = a.runInterval.nanos := by
  obtain ⟨seconds, hpos, hle, hnanos⟩ := h.nanos_runInterval
  have hinterval : (a.query policy start now).interval = a.runInterval := by
    apply Span.ext
    rw [query, Span.nanos_longer, Nat.max_eq_left hrate]
  have hseconds : a.runInterval.seconds = seconds := by
    rw [Span.seconds, hnanos, Nat.mul_div_cancel _ (by decide)]
  refine ⟨hinterval, ?_⟩
  rw [Query.bucketSeconds, hinterval, hseconds, hnanos]
  simp only [Draft.maxInterval, Query.maxIntervalSeconds, nanosPerSecond] at *
  omega

/-- The points of an alarm whose window is covered densely enough lie one run interval apart. The
window meets one bucket more than the alarm needs. When every filter has a point in each of the last
buckets that it needs, all series that are read have their points at exactly these, and the alarm is
not passed over. -/
theorem read_of_full_window {d : Draft} {owner : String} {id : Uuid} {made : Instant}
    (hmade : d.alarm owner id made = .ok a)
    (hstart : now.sub? (a.runInterval.times a.rule.trigger) = some start)
    (hselect : Policy.select r.policies start later = .ok policy)
    (htrigger : a.rule.trigger ≤ r.maxPoints) (hrate : policy.samplingRate ≤ a.runInterval) :
    a.window now = (start, now) ∧
    ∃ q, r.plan (.group a.group) a.rule.filters start now a.rule.trigger later = .ok q ∧
      q.interval = a.runInterval ∧ q.limit = a.rule.trigger ∧
      q.bucketSeconds * nanosPerSecond = a.runInterval.nanos ∧
      (Bucket.starts q.bucketSeconds start now).length = a.rule.trigger + 1 ∧
      (Bucket.starts q.bucketSeconds start now).Pairwise (· < ·) ∧
      (∀ s, s ∈ Bucket.starts q.bucketSeconds start now ↔
        ∃ t : Instant, start ≤ t ∧ t ≤ now ∧ Bucket.start q.bucketSeconds t = s) ∧
      ∀ (σ : Type) [Repository σ] [KeepsPoints σ] (store : σ),
        (∀ f ∈ a.rule.filters, ∃ series, KeepsPoints.wholeSeries store q f = .ok series ∧
          ∀ s ∈ Query.lastOf a.rule.trigger (Bucket.starts q.bucketSeconds start now),
            ∃ p ∈ series, p.time.nanos = s * nanosPerSecond) →
        ∃ batch, r.read store (.group a.group) a.rule.filters start now a.rule.trigger later =
            .ok batch ∧
          batch.names.Perm (a.rule.filters.map Filter.identifier) ∧
          (∀ series ∈ batch.values, series.times.map Instant.nanos =
            (Query.lastOf a.rule.trigger (Bucket.starts q.bucketSeconds start now)).map
              fun s => s * (nanosPerSecond : Int)) ∧
          ∀ needed found,
            a.valuate r store now later ≠ .error (.insufficientData needed found) := by
  have h := Draft.sound_of_alarm hmade
  have hplan := h.plan_eq hstart hselect htrigger
  obtain ⟨hinterval, hbucket⟩ := h.bucketSeconds_eq start now hrate
  have hrange := Instant.le_of_sub? hstart
  have hpos := (a.query policy start now).bucketSeconds_pos
  have hcount : (Bucket.starts (a.query policy start now).bucketSeconds start now).length =
      a.rule.trigger + 1 :=
    Bucket.length_starts_of_intervals hpos (by rw [hbucket, h.nanos_start hstart])
  refine ⟨by rw [h.window_eq, Instant.back_of_sub? hstart], _, hplan, hinterval, rfl, hbucket,
    hcount, Bucket.ascending_starts hpos _ _, fun s => Bucket.mem_starts_iff hpos hrange, ?_⟩
  intro σ _ _ store hpoints
  choose! series hseries hlast using hpoints
  have hlength : ((Query.lastOf a.rule.trigger
      (Bucket.starts (a.query policy start now).bucketSeconds start now)).map
        fun s => s * (nanosPerSecond : Int)).length = a.rule.trigger := by
    rw [List.length_map, Query.length_lastOf, hcount]
    omega
  obtain ⟨e, batch, hread, hnames, htimes, havailable, hvaluate⟩ :=
    h.valuate_of_last hstart hselect htrigger hseries (by
      intro f hf
      obtain ⟨raw, -, hraw⟩ := KeepsPoints.wholeSeries_eq_ok_iff.mp (hseries f hf)
      rw [Query.map_lastOf]
      refine Query.lastOf_of_sublist ((Bucket.ascending_nanos_starts hpos _ _).imp ne_of_lt)
        (Query.nanos_unlimited_sublist hrange hraw) ?_
      intro x hx
      rw [← Query.map_lastOf] at hx
      obtain ⟨s, hs, rfl⟩ := List.mem_map.mp hx
      obtain ⟨p, hp, htime⟩ := hlast f hf s hs
      exact List.mem_map.mpr ⟨p.time, List.mem_map_of_mem hp, htime⟩) hlength
  refine ⟨batch, hread, hnames, htimes, ?_⟩
  intro needed found hfew
  rw [hvaluate] at hfew
  have hless := (Valuation.insufficientData_iff h.one_le_trigger).mp ⟨needed, found, hfew⟩
  omega

end Alarm

/-- The definition of an alarm that compares two readings of one key. -/
def heat (interval trigger : Nat) : Draft :=
  { name := "heat", info := "", group := "g", message := "", enabled := true, interval, trigger,
    condition := "max(t)>min(t)" }

def heatRule (trigger : Nat) : Rule :=
  ⟨[⟨"max", none, "t", none⟩, ⟨"min", none, "t", none⟩], "max_t>min_t", trigger⟩

theorem exists_heat (interval trigger : Nat)
    (hinterval : 1 ≤ interval ∧ interval ≤ Draft.maxInterval)
    (htrigger : 1 ≤ trigger ∧ trigger ≤ maxPointsCap) :
    ∃ a, (heat interval trigger).alarm "" (.ofNat 1) .epoch = .ok a ∧ a.group = "g" ∧
      a.rule = heatRule trigger ∧ a.runInterval = .ofSeconds interval := by
  obtain ⟨e, hrule⟩ := Watch.exists_rule
  have hheat : (heat interval trigger).rule = .ok (heatRule trigger, e) :=
    Draft.rule_of_condition (by rfl) hrule
  have hname : Text.isBlankText (heat interval trigger).name = false := by
    show Text.isBlankText "heat" = false
    decide
  refine ⟨_, Draft.alarm_eq_ok hname hinterval htrigger hheat _ _ _, ?_, ?_, ?_⟩
  · rfl
  · rfl
  · rfl

open Query (second)

/-- One value in each of the last two minutes before 00:04:05. -/
def twoMinutes : Memory :=
  { Memory.empty with
    devices := ⟨[("d", ⟨["g"], ⟨[("t", [⟨second 200, 2.0⟩, ⟨second 240, 3.0⟩])],
      List.pairwise_singleton _ _⟩⟩)], List.pairwise_singleton _ _⟩ }

theorem raw_twoMinutes :
    twoMinutes.raw (.group "g") "t" = [⟨second 200, 2.0⟩, ⟨second 240, 3.0⟩] :=
  List.mergeSort_of_pairwise (by decide)

def oneDay : Policy := ⟨"1-day", .ofSeconds Policy.daySeconds, .zero⟩

/-- The query of an alarm that looks at these minutes. -/
def twoMinutesQuery : Query where
  source := .group "g"
  filters := (heatRule 2).filters
  start := second 125
  stop := second 245
  interval := .ofSeconds 60
  limit := 2
  retention := "1-day"

theorem wholeSeries_twoMinutes {f : Filter} (hf : f ∈ (heatRule 2).filters) :
    KeepsPoints.wholeSeries twoMinutes twoMinutesQuery f =
      .ok [⟨second 180, 2.0⟩, ⟨second 240, 3.0⟩] := by
  rw [KeepsPoints.wholeSeries_eq_ok_iff]
  refine ⟨[⟨second 200, 2.0⟩, ⟨second 240, 3.0⟩], ?_⟩
  rcases List.mem_pair.mp hf with rfl | rfl
  · refine ⟨congrArg Except.ok raw_twoMinutes, ?_⟩
    show Except.ok (twoMinutesQuery.grouped .max _ _) = _
    rw [Query.grouped, Bucket.ofPoints_of_pairwise (by decide)]
    rfl
  · refine ⟨congrArg Except.ok raw_twoMinutes, ?_⟩
    show Except.ok (twoMinutesQuery.grouped .min _ _) = _
    rw [Query.grouped, Bucket.ofPoints_of_pairwise (by decide)]
    rfl

/-- An alarm that needs two points, a minute apart, reads those of two minutes, also when the read is
planned a second late. -/
theorem read_of_two_minutes :
    ∃ a batch, (heat 60 2).alarm "" (.ofNat 1) .epoch = .ok a ∧
      (second 245).sub? (a.runInterval.times a.rule.trigger) = some (second 125) ∧
      Policy.select Policy.defaults (second 125) (second 246) = .ok oneDay ∧
      (Reader.ofPolicies Policy.defaults).read twoMinutes (.group a.group) a.rule.filters
        (second 125) (second 245) a.rule.trigger (second 246) = .ok batch ∧
      (∀ series ∈ batch.values, series.times.map Instant.nanos = [180000000000, 240000000000]) ∧
      ∀ needed found, a.valuate (Reader.ofPolicies Policy.defaults) twoMinutes (second 245)
        (second 246) ≠ .error (.insufficientData needed found) := by
  obtain ⟨a, hmade, hgroup, hrule, hinterval⟩ := exists_heat 60 2 (by decide) (by decide)
  have htrigger : a.rule.trigger = 2 := by rw [hrule]; rfl
  have hstart : (second 245).sub? (a.runInterval.times a.rule.trigger) = some (second 125) := by
    rw [hinterval, htrigger]
    decide
  have hselect : Policy.select Policy.defaults (second 125) (second 246) = .ok oneDay := by
    decide
  have hrate : oneDay.samplingRate ≤ a.runInterval := by
    rw [hinterval]
    decide
  have hcap : a.rule.trigger ≤ (Reader.ofPolicies Policy.defaults).maxPoints := by
    rw [htrigger]
    decide
  have hquery : a.query oneDay (second 125) (second 245) = twoMinutesQuery := by
    rw [Alarm.query, hgroup, hrule, hinterval]
    rfl
  have hplan := (Draft.sound_of_alarm hmade).plan_eq hstart hselect hcap
  obtain ⟨-, q, hq, -, -, -, -, -, -, hread⟩ :=
    Alarm.read_of_full_window hmade hstart hselect hcap hrate
  rw [hplan, hquery] at hq
  obtain rfl := Except.ok.inj hq
  have hpoints : ∀ f ∈ a.rule.filters, ∃ series,
      KeepsPoints.wholeSeries twoMinutes twoMinutesQuery f = .ok series ∧
      ∀ s ∈ Query.lastOf a.rule.trigger
          (Bucket.starts twoMinutesQuery.bucketSeconds (second 125) (second 245)),
        ∃ p ∈ series, p.time.nanos = s * nanosPerSecond := by
    rw [hrule]
    intro f hf
    refine ⟨_, wholeSeries_twoMinutes hf, ?_⟩
    have hlast : Query.lastOf (heatRule 2).trigger
        (Bucket.starts twoMinutesQuery.bucketSeconds (second 125) (second 245)) = [180, 240] := by
      decide
    rw [hlast]
    intro s hs
    rcases List.mem_pair.mp hs with rfl | rfl
    · exact ⟨_, List.mem_cons_self, by decide⟩
    · exact ⟨_, List.mem_cons_of_mem _ List.mem_cons_self, by decide⟩
  obtain ⟨batch, hbatch, -, htimes, henough⟩ := hread Memory twoMinutes hpoints
  refine ⟨a, batch, hmade, hstart, hselect, hbatch, ?_, henough⟩
  intro series hseries
  rw [htimes series hseries, htrigger]
  decide

end Vigil

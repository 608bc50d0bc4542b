import Mathlib.Data.List.Dedup
import Vigil.Proofs.Runner.Windows
import Vigil.Proofs.Series.Filled
import Vigil.Proofs.Series.Policies
import Vigil.Proofs.Store.Measurements
import Vigil.Settings

/-!
# Alarms that can be evaluated

The bounds of an alarm, the bound on points, the retention policies and the buckets have to fit
together before there is anything to evaluate. What is needed is that a policy reaches from the start of
the window to the time at which the read is planned, that as many points may be read as the alarm needs,
and that there are slots enough: as many as it needs in the window, and for each filter those that its
first output uses up besides. An alarm that misses one of these finds its window uncovered or too little
data whatever is measured. One that has all of them is evaluated when its group measured one value in
every bucket.

The read is planned after the window was measured, so a policy that lasts exactly as long as the window
does not cover it: what the clock has moved on in between comes on top.
-/

namespace Vigil

theorem Settings.bounds_of_ofText {text : String} {s : Settings} (h : Settings.ofText text = .ok s) :
    Policy.Ascending s.policies ∧ 1 ≤ s.maxPoints ∧ s.maxPoints ≤ maxPointsCap := by
  unfold Settings.ofText at h
  split at h
  · cases h
  · rename_i read _
    have hvalid : read.validate = .ok () ∧ read = s := by
      cases hcheck : read.validate with
      | error cause =>
        rw [hcheck] at h
        cases h
      | ok _ =>
        rw [hcheck] at h
        cases h
        exact ⟨rfl, rfl⟩
    obtain ⟨hcheck, rfl⟩ := hvalid
    unfold Settings.validate at hcheck
    obtain ⟨_, horder, hbounds⟩ := bind_eq_ok_iff.mp hcheck
    refine ⟨(Policy.validateOrder_eq_ok_iff.mp (mapError_eq_ok_iff.mp horder)).2, ?_⟩
    split at hbounds
    · cases hbounds
    · omega

/-- The reader of settings reads as many points as they say. -/
theorem Settings.maxPoints_reader {text : String} {s : Settings} (h : Settings.ofText text = .ok s) :
    s.reader.maxPoints = s.maxPoints := by
  obtain ⟨-, hone, hcap⟩ := Settings.bounds_of_ofText h
  show min (max s.maxPoints 1) maxPointsCap = s.maxPoints
  omega

namespace Filter

variable {f : Filter}

theorem selector?_of_validate (h : f.validate = .ok ()) : ∃ selector, f.selector? = .ok selector := by
  obtain ⟨selector, hselector, -⟩ := bind_eq_ok_iff.mp h
  exact ⟨selector, hselector⟩

theorem transformation?_of_validate (h : f.validate = .ok ()) :
    ∃ transformation, f.transformation? = .ok transformation := by
  obtain ⟨-, -, h⟩ := bind_eq_ok_iff.mp h
  unfold transformation?
  split at h
  · exact ⟨none, rfl⟩
  · obtain ⟨transformation, hname, -⟩ := bind_eq_ok_iff.mp h
    rw [hname]
    exact ⟨some transformation, rfl⟩

/-- A filter of known functions has a series, whatever its points are. -/
theorem exists_unlimited (h : f.validate = .ok ()) (q : Query) (raw : List Point) :
    ∃ series, q.unlimited f raw = .ok series := by
  obtain ⟨selector, hselector⟩ := selector?_of_validate h
  obtain ⟨transformation, htransformation⟩ := transformation?_of_validate h
  unfold Query.unlimited
  rw [hselector, htransformation]
  cases transformation with
  | none => exact ⟨_, rfl⟩
  | some transformation => exact ⟨_, rfl⟩

/-- The value one for each key of some filters. -/
def ones (filters : List Filter) : Named Float :=
  .ofList ((filters.map Filter.key).dedup.map fun key => (key, 1.0))

theorem get?_ones {filters : List Filter} (hf : f ∈ filters) :
    (ones filters).get? f.key = some 1.0 := by
  have hkeys := List.nodup_dedup (filters.map Filter.key)
  have hnodup : (((filters.map Filter.key).dedup.map fun key => (key, (1.0 : Float))).map
      Prod.fst).Nodup := by
    simpa [Function.comp_def] using hkeys
  rw [Named.get?_eq_some_iff, ones, (Named.perm_ofList hnodup).mem_iff]
  exact List.mem_map.mpr ⟨f.key, List.mem_dedup.mpr (List.mem_map_of_mem hf), rfl⟩

end Filter

theorem Policy.select_cases (policies : List Policy) (start now : Instant) :
    (∃ policy, Policy.select policies start now = .ok policy) ∨
      Policy.select policies start now = .error (.uncovered (start.spanTo now)) := by
  unfold Policy.select
  dsimp only
  split
  · exact .inl ⟨_, rfl⟩
  · exact .inr rfl

theorem Valuation.ofBatch_ne_uncovered (e : Expression) (batch : Batch) (limit : Nat)
    (requested : Span) : Valuation.ofBatch e batch limit ≠ .error (.uncovered requested) := by
  intro h
  unfold Valuation.ofBatch at h
  split at h
  · cases h
  · split at h
    · cases h
    · split at h <;> cases h

namespace Alarm

/-- The evaluation finds neither an uncovered window nor too little data. -/
def IsRead {σ : Type} [Repository σ] (a : Alarm) (r : Reader) (store : σ) (now later : Instant) :
    Prop :=
  (∀ requested, a.valuate r store now later ≠ .error (.uncovered requested)) ∧
    ∀ needed found, a.valuate r store now later ≠ .error (.insufficientData needed found)

/-- The window of an alarm begins at a time, the policy is the shortest that reaches back to there when
the read is planned, and points and slots are enough. -/
structure Fits (a : Alarm) (s : Settings) (now later start : Instant) (policy : Policy) : Prop where
  start_eq : now.sub? (a.runInterval.times a.rule.trigger) = some start
  covered : Policy.IsShortest s.policies start later policy
  trigger_le : a.rule.trigger ≤ s.maxPoints
  slots : a.rule.trigger ≤ (a.query policy start now).slots.length
  inputs : ∀ f ∈ a.rule.filters,
    a.rule.trigger + f.before ≤ ((a.query policy start now).inputSlots f).length

variable {a : Alarm} {s : Settings} {r : Reader} {now later start : Instant} {policy : Policy}

/-- Three hundred years before 1970 there are instants still. -/
theorem Sound.exists_start (h : a.Sound) (hnow : Instant.epoch ≤ now) :
    ∃ start, now.sub? (a.runInterval.times a.rule.trigger) = some start := by
  obtain ⟨seconds, -, hle, hnanos⟩ := h.nanos_runInterval
  have hcap := h.trigger_le
  have hwindow : a.runInterval.nanos * a.rule.trigger ≤
      Draft.maxInterval * nanosPerSecond * maxPointsCap := by
    rw [hnanos]
    exact Nat.mul_le_mul (Nat.mul_le_mul_right _ hle) hcap
  have hepoch : 0 ≤ now.nanos := hnow
  have hlast := now.le_last
  have hback : firstNano ≤ now.nanos - (a.runInterval.times a.rule.trigger).nanos ∧
      now.nanos - (a.runInterval.times a.rule.trigger).nanos ≤ lastNano := by
    rw [h.nanos_window]
    simp only [Draft.maxInterval, nanosPerSecond, maxPointsCap] at hwindow
    simp only [firstNano, firstSecond, nanosPerSecond]
    omega
  exact ⟨_, (Instant.sub?_eq _ _).trans (dif_pos hback)⟩

section Needs

variable {σ : Type} [Repository σ] {store : σ}

/-- An alarm whose window no policy covers is not evaluated. -/
theorem Sound.valuate_of_select (h : a.Sound)
    (hstart : now.sub? (a.runInterval.times a.rule.trigger) = some start) {cause : AlarmError}
    (hselect : Policy.select r.policies start later = .error cause) :
    a.valuate r store now later = .error cause := by
  obtain ⟨e, he⟩ := h.compiles
  have hplan : r.plan (.group a.group) a.rule.filters start now a.rule.trigger later =
      .error cause :=
    Reader.plan_of_select_error (Instant.le_of_sub? hstart) hselect
  rw [h.valuate_eq hstart he, Reader.read, hplan]
  rfl

variable [KeepsPoints σ]

/-- Every series of a covered window can be read, and an evaluation has no more points than are kept
of each. -/
theorem Sound.exists_valuation (h : a.Sound)
    (hstart : now.sub? (a.runInterval.times a.rule.trigger) = some start)
    (hselect : Policy.select r.policies start later = .ok policy)
    (hpoints : ∀ q f, ∃ raw, KeepsPoints.points store q f = .ok raw) :
    ∃ (q : Query) (series : Filter → Series) (e : Expression) (batch : Batch),
      r.plan (.group a.group) a.rule.filters start now a.rule.trigger later = .ok q ∧
      q.limit = min a.rule.trigger r.maxPoints ∧
      (∀ f ∈ a.rule.filters, ∃ raw, q.unlimited f raw = .ok (series f)) ∧
      (∀ f ∈ a.rule.filters, Valuation.available batch ≤ min q.limit (series f).length) ∧
      a.valuate r store now later = Valuation.ofBatch e batch a.rule.trigger := by
  obtain ⟨q, hplan, hfilters, hlimit⟩ : ∃ q : Query,
      r.plan (.group a.group) a.rule.filters start now a.rule.trigger later = .ok q ∧
      q.filters = a.rule.filters ∧ q.limit = min a.rule.trigger r.maxPoints :=
    ⟨_, Reader.plan_of_select (Instant.le_of_sub? hstart) hselect, rfl, rfl⟩
  have hwhole : ∀ f ∈ a.rule.filters, ∃ series raw,
      KeepsPoints.wholeSeries store q f = .ok series ∧ q.unlimited f raw = .ok series := by
    intro f hf
    obtain ⟨raw, hraw⟩ := hpoints q f
    obtain ⟨series, hseries⟩ := Filter.exists_unlimited (h.valid f hf) q raw
    exact ⟨series, raw, KeepsPoints.wholeSeries_eq_ok_iff.mpr ⟨raw, hraw, hseries⟩, hseries⟩
  choose! series raw hseries hraw using hwhole
  have hall : List.Forall₂ (fun f series => KeepsPoints.wholeSeries store q f = .ok series)
      q.filters (a.rule.filters.map series) := by
    rw [hfilters]
    exact List.forall₂_map_right_iff.mpr (List.forall₂_same.mpr hseries)
  have hascending : ∀ whole ∈ a.rule.filters.map series, (Series.times whole).Pairwise (· < ·) := by
    intro whole hmem
    obtain ⟨f, hf, rfl⟩ := List.mem_map.mp hmem
    exact Query.ascending_unlimited (hraw f hf)
  have htrimmed := @Batch.ascending_trimmed _ q.limit hascending
  obtain ⟨e, batch, -, -, -, havailable, hvaluate⟩ := h.valuate_of_query hstart hplan
    (KeepsPoints.query_of_wholeSeries hall) (by simp) htrimmed
  refine ⟨q, series, e, batch, hplan, hlimit, fun f hf => ⟨raw f, hraw f hf⟩, ?_, hvaluate⟩
  intro f hf
  have hmem : Query.lastOf q.limit (series f) ∈
      (a.rule.filters.map series).map (Query.lastOf q.limit) :=
    List.mem_map_of_mem (List.mem_map_of_mem hf)
  have hshared := (Batch.shared_sublist htrimmed hmem).length_le
  rw [Series.times, List.length_map, Query.length_lastOf] at hshared
  rwa [havailable]

/-- An alarm that is evaluated needs no more points than may be read and than each series has. -/
theorem Sound.trigger_le_of_isRead (h : a.Sound)
    (hstart : now.sub? (a.runInterval.times a.rule.trigger) = some start)
    (hselect : Policy.select r.policies start later = .ok policy)
    (hpoints : ∀ q f, ∃ raw, KeepsPoints.points store q f = .ok raw) (hread : a.IsRead r store now later) :
    ∃ q, r.plan (.group a.group) a.rule.filters start now a.rule.trigger later = .ok q ∧
      a.rule.trigger ≤ r.maxPoints ∧
      ∀ f ∈ a.rule.filters, ∃ raw series, q.unlimited f raw = .ok series ∧
        a.rule.trigger ≤ series.length := by
  obtain ⟨q, series, e, batch, hplan, hlimit, hseries, havailable, hvaluate⟩ :=
    h.exists_valuation hstart hselect hpoints
  have henough : a.rule.trigger ≤ Valuation.available batch := by
    refine Nat.le_of_not_lt fun hfew => ?_
    obtain ⟨needed, found, hdata⟩ :=
      (Valuation.insufficientData_iff (e := e) h.one_le_trigger).mpr hfew
    exact hread.2 needed found (hvaluate.trans hdata)
  obtain ⟨f₀, hf₀⟩ := List.exists_mem_of_ne_nil _ h.filters_ne_nil
  have hfirst := havailable f₀ hf₀
  refine ⟨q, hplan, by omega, ?_⟩
  intro f hf
  obtain ⟨raw, hraw⟩ := hseries f hf
  have hmost := havailable f hf
  exact ⟨raw, series f, hraw, by omega⟩

/-- An alarm that is evaluated fits the settings. -/
theorem Sound.fits_of_isRead (h : a.Sound) (hascending : Policy.Ascending s.policies)
    (hreader : s.reader.maxPoints = s.maxPoints) (hnow : Instant.epoch ≤ now)
    (hpoints : ∀ q f, ∃ raw, KeepsPoints.points store q f = .ok raw)
    (hread : a.IsRead s.reader store now later) : ∃ start policy, a.Fits s now later start policy := by
  obtain ⟨start, hstart⟩ := h.exists_start hnow
  have hpolicy : ∃ policy, Policy.select s.policies start later = .ok policy := by
    rcases Policy.select_cases s.policies start later with hpolicy | huncovered
    · exact hpolicy
    · exact absurd (h.valuate_of_select hstart huncovered) (hread.1 _)
  obtain ⟨policy, hselect⟩ := hpolicy
  have hrange := Instant.le_of_sub? hstart
  obtain ⟨q, hplan, htrigger, hseries⟩ := h.trigger_le_of_isRead hstart hselect hpoints hread
  obtain rfl := Except.ok.inj (hplan.symm.trans (h.plan_eq hstart hselect htrigger))
  rw [hreader] at htrigger
  obtain ⟨f₀, hf₀⟩ := List.exists_mem_of_ne_nil _ h.filters_ne_nil
  refine ⟨start, policy, hstart, (Policy.select_eq_ok_iff hascending).mp hselect, htrigger, ?_, ?_⟩
  · obtain ⟨raw, series, hraw, hlength⟩ := hseries f₀ hf₀
    exact hlength.trans (Query.length_unlimited_le hrange hraw).1
  · intro f hf
    obtain ⟨raw, series, hraw, hlength⟩ := hseries f hf
    have hinputs := (Query.length_unlimited_le hrange hraw).2
    have hone := h.one_le_trigger
    omega

end Needs

/-- A group whose devices measured one value in every bucket is evaluated. -/
theorem Sound.exists_isRead (h : a.Sound) (hascending : Policy.Ascending s.policies)
    (hreader : s.reader.maxPoints = s.maxPoints) (hfits : a.Fits s now later start policy) :
    ∃ (ws : List Measurement) (m : Memory), (∀ w ∈ ws, w.groups = [a.group]) ∧
      ws.foldlM Memory.write .empty = .ok m ∧ a.IsRead s.reader m now later := by
  have hrange := Instant.le_of_sub? hfits.start_eq
  obtain ⟨times, hfilled⟩ := Bucket.exists_filled (a.query policy start now).bucketSeconds_pos .first
    now now.first_le
  obtain ⟨m, hm, hraw⟩ := Measurement.exists_writes_each a.group (Filter.ones a.rule.filters) times
  refine ⟨_, m, ?_, hm, ?_⟩
  · intro w hw
    obtain ⟨_, -, rfl⟩ := List.mem_map.mp hw
    rfl
  have hwhole : ∀ f ∈ a.rule.filters, ∃ series,
      KeepsPoints.wholeSeries m (a.query policy start now) f = .ok series ∧
      Query.lastOf a.rule.trigger series.times =
        Query.lastOf a.rule.trigger (a.query policy start now).slots := by
    intro f hf
    obtain ⟨series, hseries⟩ := Filter.exists_unlimited (h.valid f hf) (a.query policy start now)
      (m.raw (.group a.group) f.key)
    have hkept := hfilled 1.0 _ (hraw f.key 1.0 (Filter.get?_ones hf))
    refine ⟨series, KeepsPoints.wholeSeries_eq_ok_iff.mpr ⟨_, rfl, hseries⟩, ?_⟩
    refine Query.lastOf_times_of_steady hrange hseries ?_ (hfits.inputs f hf)
    intro selector _
    exact Query.grouped_of_filled (Instant.first_le _) hrange hkept
  choose! series hseries hlast using hwhole
  have hcount : ((Query.lastOf a.rule.trigger (a.query policy start now).slots).map
      Instant.nanos).length = a.rule.trigger := by
    have hslots := hfits.slots
    rw [List.length_map, Query.length_lastOf]
    omega
  obtain ⟨e, batch, -, -, -, havailable, hvaluate⟩ :=
    h.valuate_of_last hfits.start_eq (r := s.reader)
      ((Policy.select_eq_ok_iff hascending).mpr hfits.covered) (by rw [hreader]; exact hfits.trigger_le) hseries
      (fun f hf => by rw [← Query.map_lastOf, hlast f hf]) hcount
  refine ⟨?_, ?_⟩
  · intro requested
    rw [hvaluate]
    exact Valuation.ofBatch_ne_uncovered e batch _ requested
  · intro needed found hfew
    rw [hvaluate] at hfew
    have hless := (Valuation.insufficientData_iff h.one_le_trigger).mp ⟨needed, found, hfew⟩
    omega

/-- An accepted alarm can be evaluated under accepted settings exactly when it fits them: when it does,
its group can measure so that its window is covered and holds enough data, and when it does not, no
store that can be read holds enough. To fit, a policy has to last as long as the window and as what the
clock moves on until the read is planned. -/
theorem isRead_exactly_if_fits {d : Draft} {owner text : String} {id : Uuid}
    {made : Instant} (hmade : d.alarm owner id made = .ok a) (hsettings : Settings.ofText text = .ok s)
    (hnow : Instant.epoch ≤ now) (later : Instant) :
    ((∃ start policy, a.Fits s now later start policy) →
      ∃ (ws : List Measurement) (m : Memory), (∀ w ∈ ws, w.groups = [a.group]) ∧
        ws.foldlM Memory.write .empty = .ok m ∧ a.IsRead s.reader m now later) ∧
    (∀ (σ : Type) [Repository σ] [KeepsPoints σ] (store : σ),
      (∀ q f, ∃ raw, KeepsPoints.points store q f = .ok raw) → a.IsRead s.reader store now later →
        ∃ start policy, a.Fits s now later start policy) ∧
    ∀ start policy, a.Fits s now later start policy →
      a.rule.trigger * a.runInterval.nanos + (later.nanos - now.nanos) ≤ policy.duration.nanos := by
  have h := Draft.sound_of_alarm hmade
  have hascending := (Settings.bounds_of_ofText hsettings).1
  have hreader := Settings.maxPoints_reader hsettings
  refine ⟨?_, ?_, ?_⟩
  · rintro ⟨start, policy, hfits⟩
    exact h.exists_isRead hascending hreader hfits
  · intro σ _ _ store hpoints hread
    exact h.fits_of_isRead hascending hreader hnow hpoints hread
  · intro start policy hfits
    have hwindow := h.nanos_start hfits.start_eq
    have hreaches : later.nanos - start.nanos ≤ policy.duration.nanos := hfits.covered.reaches
    omega

theorem ofText_nothing : Settings.ofText "\x7b\x7d" = .ok Settings.default := by rfl

theorem ascending_defaults : Policy.Ascending Settings.default.policies :=
  (Settings.bounds_of_ofText ofText_nothing).1

open Query (second)

theorem fits_two_minutes (hrule : a.rule = heatRule 2) (hgroup : a.group = "g")
    (hinterval : a.runInterval = .ofSeconds 60) :
    a.Fits .default (second 245) (second 246) (second 125) oneDay := by
  have hquery : a.query oneDay (second 125) (second 245) = twoMinutesQuery := by
    rw [query, hgroup, hrule, hinterval]
    rfl
  refine ⟨?_, (Policy.select_eq_ok_iff ascending_defaults).mp (by decide), ?_, ?_, ?_⟩
  · rw [hinterval, hrule]
    decide
  · rw [hrule]
    decide
  · rw [hquery, hrule]
    decide
  · rw [hquery, hrule]
    decide

/-- Under settings that say nothing an alarm that needs two points, a minute apart, can be evaluated,
also when the read is planned a second late. -/
theorem isRead_two_minutes :
    ∃ (a : Alarm) (ws : List Measurement) (m : Memory),
      (heat 60 2).alarm "" (.ofNat 1) .epoch = .ok a ∧
      Settings.ofText "\x7b\x7d" = .ok Settings.default ∧ Instant.epoch ≤ second 245 ∧
      (∀ w ∈ ws, w.groups = ["g"]) ∧ ws.foldlM Memory.write .empty = .ok m ∧
      a.IsRead Settings.default.reader m (second 245) (second 246) ∧
      ∃ start policy, a.Fits .default (second 245) (second 246) start policy ∧
        121 * (nanosPerSecond : Int) ≤ policy.duration.nanos := by
  obtain ⟨a, hmade, hgroup, hrule, hinterval⟩ := exists_heat 60 2 (by decide) (by decide)
  obtain ⟨henough, hneeded, hlong⟩ := isRead_exactly_if_fits hmade ofText_nothing
    (show Instant.epoch ≤ second 245 by decide) (second 246)
  obtain ⟨ws, m, hgroups, hwritten, hread⟩ :=
    henough ⟨second 125, oneDay, fits_two_minutes hrule hgroup hinterval⟩
  obtain ⟨start, policy, hfits⟩ := hneeded Memory m (fun _ _ => ⟨_, rfl⟩) hread
  have hduration := hlong start policy hfits
  rw [hrule, hinterval] at hduration
  rw [hgroup] at hgroups
  exact ⟨a, ws, m, hmade, ofText_nothing, by decide, hgroups, hwritten, hread, start, policy, hfits,
    hduration⟩

/-- An alarm is accepted whose window is never covered under settings that say nothing: it needs three
hundred points, a year apart. -/
theorem uncovered_three_centuries :
    ∃ a, (heat Draft.maxInterval maxPointsCap).alarm "" (.ofNat 1) .epoch = .ok a ∧
      Settings.ofText "\x7b\x7d" = .ok Settings.default ∧
      ∀ (σ : Type) [Repository σ] (store : σ) (later : Instant), Instant.epoch ≤ later →
        ∃ requested, a.valuate Settings.default.reader store .epoch later =
          .error (.uncovered requested) := by
  obtain ⟨a, hmade, -, hrule, hinterval⟩ :=
    exists_heat Draft.maxInterval maxPointsCap (by decide) (by decide)
  have h := Draft.sound_of_alarm hmade
  have hstart : Instant.epoch.sub? (a.runInterval.times a.rule.trigger) =
      some ⟨-9460800000000000000, by decide, by decide⟩ := by
    rw [hinterval, hrule]
    decide
  have hshort : ∀ p ∈ Policy.defaults, p.duration.nanos < 9460800000000000000 := by decide
  refine ⟨a, hmade, ofText_nothing, ?_⟩
  intro σ _ store later hlater
  refine ⟨_, h.valuate_of_select hstart (Policy.select_of_none fun p hp hreaches => ?_)⟩
  have hduration := hshort p hp
  have hforward : 0 ≤ later.nanos := hlater
  have hback : later.nanos - -9460800000000000000 ≤ p.duration.nanos := hreaches
  omega

/-- The policy that keeps a value for every half hour. -/
def sixMonths : Policy := ⟨"6-months", .ofSeconds (182 * Policy.daySeconds), .ofSeconds 1800⟩

/-- An alarm that looks back over exactly a day is read under the policy of six months, even if the clock
moves on by a second only, and then finds too little whatever is measured. -/
theorem not_isRead_whole_day :
    ∃ a, (heat 300 288).alarm "" (.ofNat 1) .epoch = .ok a ∧
      ∀ (σ : Type) [Repository σ] [KeepsPoints σ] (store : σ),
        (∀ q f, ∃ raw, KeepsPoints.points store q f = .ok raw) →
        ¬ a.IsRead Settings.default.reader store (second 86645) (second 86646) := by
  obtain ⟨a, hmade, hgroup, hrule, hinterval⟩ := exists_heat 300 288 (by decide) (by decide)
  have h := Draft.sound_of_alarm hmade
  have hbegins : (second 86645).sub? (a.runInterval.times a.rule.trigger) = some (second 245) := by
    rw [hinterval, hrule]
    decide
  refine ⟨a, hmade, fun σ _ _ store hpoints hread => ?_⟩
  obtain ⟨start, policy, hstart, hcovered, -, hslots, -⟩ :=
    h.fits_of_isRead ascending_defaults (by rfl) (by decide) hpoints hread
  rw [hbegins] at hstart
  obtain rfl := Option.some.inj hstart
  have hsix : Policy.select Settings.default.policies (second 245) (second 86646) = .ok sixMonths := by
    decide
  rw [(Policy.select_eq_ok_iff ascending_defaults).mpr hcovered] at hsix
  obtain rfl := Except.ok.inj hsix
  rw [query, hgroup, hrule, hinterval] at hslots
  revert hslots
  decide

end Alarm

end Vigil

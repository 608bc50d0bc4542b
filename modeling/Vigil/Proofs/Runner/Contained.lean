import Vigil.Proofs.Condition.Found
import Vigil.Proofs.Runner.Evaluable
import Vigil.Proofs.Series.Partition
import Vigil.Proofs.Store.Interchange
import Vigil.Proofs.Store.Kept

/-!
# Errors of an evaluation stay contained

What was checked when an alarm was made cannot fail any more when the alarm is evaluated: its expression
compiles, its filters name known functions, and a store hands it out with the condition and the interval
that it was made with. What remains is that the window is not covered, that there is too little data, or
that the expression has no value. Nor can a step break down: the window is not reversed, nothing is
divided by zero, no index is out of range and every number fits into 64 bits.
-/

namespace Vigil

open Keeper (Lists)

section HandsOut

variable {σ : Type} [Repository σ]

/-- An answer of the store has the alarm. -/
def HandsOut (store : σ) (b : Alarm) : Prop :=
  ∃ request as after, Repository.ask store request = .ok (.alarms as, after) ∧ b ∈ as

/-- The alarm is handed out under the identifier of another one, which was created among requests that
began with nothing. -/
def ReadBack (empty : σ) (a b : Alarm) : Prop :=
  ∃ (earlier later : List AlarmRequest) (store : σ),
    Repository.createAlarm (earlier.foldl Repository.left empty) a = .ok store ∧
      HandsOut (later.foldl Repository.left store) b ∧ b.id = a.id

variable [Keeper σ] {store : σ} {kept : List (Alarm × Instant)} {a b : Alarm}

/-- A request keeps the definitions of all alarms. -/
theorem lists_left (h : Lists store kept) (r : AlarmRequest) :
    ∃ kept', Lists (Repository.left store r) kept' ∧
      ∀ k ∈ kept, ∃ k' ∈ kept', k'.1 = k.1 := by
  unfold Repository.left
  cases hask : Repository.ask store r with
  | error cause => exact ⟨kept, h, fun k hk => ⟨k, hk, rfl⟩⟩
  | ok answer =>
    obtain ⟨answer, after⟩ := answer
    cases r with
    | call c =>
      cases c with
      | create a =>
        obtain ⟨_, hcreate, ⟨⟩⟩ := map_eq_ok_iff.mp hask
        exact ⟨_, Keeper.of_createAlarm h hcreate, fun k hk => ⟨k, List.mem_append_left _ hk, rfl⟩⟩
      | fire id value time =>
        obtain ⟨⟨_, _⟩, hfire, ⟨⟩⟩ := map_eq_ok_iff.mp hask
        exact ⟨kept, Keeper.of_fire h hfire, fun k hk => ⟨k, hk, rfl⟩⟩
      | clear id time =>
        obtain ⟨⟨_, _⟩, hclear, ⟨⟩⟩ := map_eq_ok_iff.mp hask
        exact ⟨kept, Keeper.of_clear h hclear, fun k hk => ⟨k, hk, rfl⟩⟩
      | markRun id time =>
        obtain ⟨_, hmark, ⟨⟩⟩ := map_eq_ok_iff.mp hask
        exact ⟨_, Keeper.of_markRun h hmark,
          fun k hk => ⟨_, List.mem_map_of_mem hk, fst_noted id time k⟩⟩
    | _ =>
      obtain ⟨_, -, ⟨⟩⟩ := map_eq_ok_iff.mp hask
      exact ⟨kept, h, fun k hk => ⟨k, hk, rfl⟩⟩

theorem lists_foldl_left (h : Lists store kept) (requests : List AlarmRequest) :
    ∃ kept', Lists (requests.foldl Repository.left store) kept' ∧
      ∀ k ∈ kept, ∃ k' ∈ kept', k'.1 = k.1 := by
  induction requests generalizing store kept with
  | nil => exact ⟨kept, h, fun k hk => ⟨k, hk, rfl⟩⟩
  | cons r rest ih =>
    obtain ⟨kept', hleft, hmem⟩ := lists_left h r
    obtain ⟨kept'', hrest, hmem'⟩ := ih hleft
    refine ⟨kept'', hrest, ?_⟩
    intro k hk
    obtain ⟨k', hk', hsame⟩ := hmem k hk
    obtain ⟨k'', hk'', hsame'⟩ := hmem' k' hk'
    exact ⟨k'', hk'', hsame'.trans hsame⟩

/-- What a store hands out was created with the same definition. -/
theorem restores_of_handsOut (h : Lists store kept) (hout : HandsOut store b) (ha : a ∈ kept.map Prod.fst)
    (hid : b.id = a.id) : b.Restores a := by
  have hsame : ∀ k ∈ kept, b.Restores k.1 → b.Restores a := by
    intro k hk hb
    have hka : k.1 = a := by
      obtain ⟨j, hj, rfl⟩ := List.mem_map.mp ha
      exact congrArg Prod.fst
        (List.inj_on_of_nodup_map (Keeper.ids h) hk hj (hb.id.symm.trans hid))
    exact hka ▸ hb
  obtain ⟨request, as, after, hask, hb⟩ := hout
  cases request with
  | call c =>
    cases c with
    | create c =>
      obtain ⟨_, hcreate, heq⟩ := map_eq_ok_iff.mp hask
      -- a second alarm under one identifier is refused
      cases heq
      obtain rfl := List.mem_singleton.mp hb
      have hnodup := Keeper.ids (Keeper.of_createAlarm h hcreate)
      rw [List.map_append, List.nodup_append] at hnodup
      obtain ⟨k, hk, rfl⟩ := List.mem_map.mp ha
      exact absurd hid.symm (hnodup.2.2 _ (List.mem_map_of_mem hk) _ (List.mem_singleton_self _))
    | _ =>
      obtain ⟨_, -, heq⟩ := map_eq_ok_iff.mp hask
      cases heq
  | alarm id =>
    obtain ⟨c, halarm, heq⟩ := map_eq_ok_iff.mp hask
    cases heq
    obtain rfl := List.mem_singleton.mp hb
    obtain ⟨k, hk, hrestores⟩ := Keeper.of_alarm h halarm
    exact hsame k hk hrestores
  | due least now =>
    obtain ⟨alarms, hdue, heq⟩ := map_eq_ok_iff.mp hask
    cases heq
    obtain ⟨due, hsub, hrestores, -⟩ := Keeper.of_dueAlarms h hdue
    obtain ⟨k, hk, hbk⟩ := exists_of_forall₂_left hrestores hb
    exact hsame k (hsub.subset hk) hbk
  | _ =>
    obtain ⟨_, -, heq⟩ := map_eq_ok_iff.mp hask
    cases heq

theorem restores_of_readBack {empty : σ} (hempty : Lists empty []) (h : ReadBack empty a b) :
    b.Restores a := by
  obtain ⟨earlier, later, store, hcreate, hout, hid⟩ := h
  obtain ⟨before, hbefore, -⟩ := lists_foldl_left hempty earlier
  obtain ⟨kept, hkept, hmem⟩ := lists_foldl_left (Keeper.of_createAlarm hbefore hcreate) later
  obtain ⟨k, hk, hka⟩ := hmem (a, a.lastRun) (List.mem_append_right _ (List.mem_singleton_self _))
  exact restores_of_handsOut hkept hout (List.mem_map.mpr ⟨k, hk, hka⟩) hid

end HandsOut

theorem Condition.fits_of_filter? {piece : List Char} {f : Filter} (h : filter? piece = .ok (some f)) :
    f.Fits := by
  intro p hp
  obtain ⟨-, hlow, hhigh⟩ := (filter?_eq_some_iff.mp h).spelt.param p hp
  rw [maxParam] at hhigh
  omega

/-- The rule of an accepted definition can be written down, and its expression compiles. -/
theorem Draft.fits_of_alarm {d : Draft} {owner : String} {id : Uuid} {made : Instant} {a : Alarm}
    (h : d.alarm owner id made = .ok a) :
    a.rule.Fits ∧ ∃ e, Expression.compile a.rule.expression = .ok e := by
  have htrigger := (Draft.sound_of_alarm h).trigger_le
  obtain ⟨e, hrule, -⟩ := (Draft.makes_of_alarm h).rule
  obtain ⟨c, hparse, -, hcompile, hc⟩ := Draft.rule_eq_ok_iff.mp hrule
  rw [hc] at htrigger ⊢
  refine ⟨⟨?_, Nat.lt_of_le_of_lt htrigger (by decide)⟩, e, hcompile⟩
  intro f hf
  obtain ⟨piece, -, hpiece⟩ := (Condition.mem_filters_iff hparse).mp hf
  exact Condition.fits_of_filter? hpiece

namespace Alarm

variable {a b : Alarm} {r : Reader} {m : Memory} {now later : Instant}

/-- An alarm with the definition of a sound one is sound. -/
theorem Sound.restored (h : a.Sound) (hfits : a.rule.Fits)
    (hcompiles : ∃ e, Expression.compile a.rule.expression = .ok e) (hb : b.Restores a) :
    b.Sound ∧ b.rule = a.rule := by
  obtain ⟨seconds, hpos, hle, hinterval⟩ := h.interval
  have hnanos : a.runInterval.nanos = seconds * nanosPerSecond := by
    rw [hinterval, Span.nanos_ofSeconds (by simp only [Draft.maxInterval] at hle; omega)]
  simp only [Draft.maxInterval] at hle
  have hmillis : a.runInterval.OnMillis := by
    simp only [Span.OnMillis, hnanos, nanosPerSecond, nanosPerMilli]
    omega
  have hbound : (a.runInterval.millis : Int) ≤ greatestWord := by
    simp only [Span.millis, hnanos, nanosPerSecond, nanosPerMilli, greatestWord]
    omega
  have hrule := hb.rule hfits
  refine ⟨?_, hrule⟩
  constructor
  · rw [hb.runInterval hmillis hbound]
    exact h.interval
  · rw [hrule]
    exact h.one_le_trigger
  · rw [hrule]
    exact h.trigger_le
  · rw [hrule]
    exact h.filters_ne_nil
  · rw [hrule]
    exact h.nodup_identifiers
  · rw [hrule]
    exact h.valid
  · have hexpression := h.compiles
    rcases hb.compiled with hnone | hsame
    · obtain ⟨e, he⟩ := hcompiles
      unfold expression
      rw [hnone, hrule, he]
      exact ⟨e, rfl⟩
    · unfold expression at hexpression ⊢
      rw [hsame, hrule]
      exact hexpression

/-- Over a store in memory every query for filters of known functions is answered. -/
theorem exists_query (m : Memory) (q : Query) (h : ∀ f ∈ q.filters, f.validate = .ok ()) :
    ∃ all, m.query q = .ok all ∧ q.filters.length = all.length := by
  have hanswers : ∀ f ∈ q.filters, ∃ series,
      (q.answer f (m.raw q.source f.key)).mapError AlarmError.condition = .ok series := by
    intro f hf
    obtain ⟨whole, hwhole⟩ := Filter.exists_unlimited (h f hf) q (m.raw q.source f.key)
    refine ⟨Query.lastOf q.limit whole, ?_⟩
    rw [Query.answer, hwhole]
    rfl
  choose! series hseries using hanswers
  refine ⟨q.filters.map series, ?_, (List.length_map _).symm⟩
  exact mapM_eq_ok_iff.mpr (List.forall₂_map_right_iff.mpr (List.forall₂_same.mpr hseries))

/-- An evaluation finds its window uncovered, or it reads a batch and evaluates the expression. -/
theorem Sound.valuate_cases (h : a.Sound) (r : Reader) (m : Memory) (now later : Instant) :
    (∃ requested, a.valuate r m now later = .error (.uncovered requested)) ∨
      ∃ e batch, a.valuate r m now later = Valuation.ofBatch e batch a.rule.trigger := by
  obtain ⟨e, he⟩ := h.compiles
  have hvaluate : a.valuate r m now later =
      r.read m (.group a.group) a.rule.filters (a.window now).1 (a.window now).2 a.rule.trigger later >>=
        fun batch => Valuation.ofBatch e batch a.rule.trigger := by
    unfold valuate
    rw [he]
    rfl
  have hrange : ¬ (a.window now).2 < (a.window now).1 := Int.not_lt.mpr (Instant.back_le now _)
  rw [hvaluate, Reader.read, Reader.plan, if_neg hrange]
  rcases Policy.select_cases r.policies (a.window now).1 later with ⟨policy, hselect⟩ | hselect
  · rw [hselect]
    refine .inr ?_
    obtain ⟨all, hall, hlength⟩ := exists_query m
      { source := .group a.group, filters := a.rule.filters, start := (a.window now).1
        stop := (a.window now).2
        interval := r.interval policy (a.window now).1 (a.window now).2 a.rule.trigger
        limit := min a.rule.trigger r.maxPoints, retention := policy.name } h.valid
    obtain ⟨batch, hbatch, -⟩ := Batch.exists_assemble h.nodup_identifiers hlength
    refine ⟨e, batch, ?_⟩
    show ((m.query _ >>= Batch.assemble a.rule.filters) >>= _) = _
    rw [hall]
    show (Batch.assemble a.rule.filters all >>= _) = _
    rw [hbatch]
    rfl
  · rw [hselect]
    exact .inl ⟨_, rfl⟩

end Alarm

/-- Too little data, a window that is not covered, and an expression that has no value. -/
def AlarmError.IsContained : AlarmError → Prop
  | .insufficientData _ _ | .uncovered _ | .evaluation _ => True
  | _ => False

theorem Valuation.ofBatch_cases (e : Expression) (batch : Batch) {limit : Nat} (hlimit : 1 ≤ limit) :
    (∃ v, ofBatch e batch limit = .ok v) ∨
      ∃ cause, ofBatch e batch limit = .error cause ∧ cause.IsContained := by
  unfold ofBatch
  rw [if_neg (by omega)]
  split
  · exact .inr ⟨_, rfl, trivial⟩
  · split
    · exact .inr ⟨_, rfl, trivial⟩
    · exact .inl ⟨_, rfl⟩
    · exact .inl ⟨_, rfl⟩

/-- A run of `n` points has `n` of them. -/
theorem Transformation.length_of_mem_windows {n : Nat} {series run : Series}
    (h : run ∈ windows n series) : run.length = n := by
  induction series with
  | nil => cases h
  | cons p rest ih =>
    rw [windows] at h
    split at h
    · cases h
    · rename_i hlong
      rcases List.mem_cons.mp h with rfl | h
      · rw [List.length_take]
        omega
      · exact ih h

theorem Query.bucketSeconds_le (q : Query) : q.bucketSeconds ≤ greatestWord := by
  unfold bucketSeconds maxIntervalSeconds greatestWord
  omega

/-- The distance of two times in milliseconds fits into 64 bits. -/
theorem Instant.distance_bounds (t u : Instant) :
    leastWord ≤ (u.nanos - t.nanos).tdiv nanosPerMilli ∧
      (u.nanos - t.nanos).tdiv nanosPerMilli ≤ greatestWord := by
  have ht := t.nanos_bounds
  have hu := u.nanos_bounds
  have hsize := Int.natAbs_tdiv_le_natAbs (u.nanos - t.nanos) 1000000
  have hsplit := Int.mul_tdiv_add_tmod (u.nanos - t.nanos) 1000000
  have hless := Int.tmod_lt_of_pos (u.nanos - t.nanos) (by decide : (0 : Int) < 1000000)
  have hmore := Int.lt_tmod_of_pos (u.nanos - t.nanos) (by decide : (0 : Int) < 1000000)
  simp only [leastWord, greatestWord, nanosPerMilli, Nat.cast_ofNat]
  omega

namespace Valuation

variable {batch : Batch} {series : Series} {limit i : Nat} {name : String}

theorem foldl_min_le (lengths : List Nat) (n : Nat) :
    lengths.foldl min n ≤ n ∧ ∀ l ∈ lengths, lengths.foldl min n ≤ l := by
  induction lengths generalizing n with
  | nil => exact ⟨Nat.le_refl n, fun _ h => absurd h List.not_mem_nil⟩
  | cons k rest ih =>
    obtain ⟨hmin, hrest⟩ := ih (min n k)
    rw [List.foldl_cons]
    refine ⟨by omega, ?_⟩
    intro l hl
    rcases List.mem_cons.mp hl with rfl | hl
    · omega
    · exact hrest l hl

theorem available_le_length (h : series ∈ batch.values) : available batch ≤ series.length := by
  unfold available
  cases hvalues : batch.values with
  | nil =>
    rw [hvalues] at h
    cases h
  | cons first rest =>
    rw [hvalues] at h
    obtain ⟨hfirst, hrest⟩ := foldl_min_le (rest.map List.length) first.length
    rcases List.mem_cons.mp h with rfl | h
    · exact hfirst
    · exact hrest _ (List.mem_map_of_mem h)

/-- A name of the batch has a value at each of the last points that every series has. -/
theorem exists_lookup (hlimit : limit ≤ available batch) (hname : name ∈ batch.names) (hi : i < limit) :
    ∃ x, lookup batch limit i name = some x := by
  obtain ⟨⟨_, series⟩, hentry, rfl⟩ := List.mem_map.mp hname
  have hlength : available batch ≤ series.length := available_le_length (List.mem_map_of_mem hentry)
  have hplace : series.length - limit + i < series.length := by omega
  refine ⟨series[series.length - limit + i].value, ?_⟩
  unfold lookup
  rw [Named.get?_eq_some_iff.mpr hentry]
  show (series[series.length - limit + i]? >>= _) = _
  rw [List.getElem?_eq_getElem hplace]
  rfl

end Valuation

namespace Alarm

variable {a b : Alarm} {r : Reader} {m : Memory} {now later : Instant}

/-- What every step of an evaluation relies on. -/
structure NeverBreaks (a : Alarm) (r : Reader) (m : Memory) (now later : Instant) : Prop where
  window : (a.window now).1 ≤ (a.window now).2
  /-- The window is divided by a number of points that is not zero. -/
  points : Policy.pointCount a.rule.trigger r.maxPoints ≠ 0
  /-- Times are divided by the length of a bucket and multiplied by it again. -/
  buckets : ∀ q, r.plan (.group a.group) a.rule.filters (a.window now).1 (a.window now).2
    a.rule.trigger later = .ok q → 1 ≤ q.bucketSeconds ∧ q.bucketSeconds ≤ greatestWord ∧
      ∀ t, leastWord ≤ Bucket.start q.bucketSeconds t ∧ Bucket.start q.bucketSeconds t ≤ greatestWord
  /-- A bucket with values has what its selector takes from it. -/
  selectors : ∀ f ∈ a.rule.filters, ∀ selector, f.selector? = .ok selector → selector ≠ .stddev →
    ∀ values : List Float, values ≠ [] → ∃ x, selector.apply values = some x
  /-- The runs of a moving average have as many points as it counts, at least one. -/
  runs : ∀ f ∈ a.rule.filters, 1 ≤ Transformation.atLeastOne f.param 2 ∧
    Transformation.atLeastOne f.param 2 ≤ greatestWord ∧
      ∀ series, ∀ run ∈ Transformation.windows (Transformation.atLeastOne f.param 2) series,
        run.length = Transformation.atLeastOne f.param 2
  /-- Rates count the milliseconds between two times. -/
  distances : ∀ t u : Instant, leastWord ≤ (u.nanos - t.nanos).tdiv nanosPerMilli ∧
    (u.nanos - t.nanos).tdiv nanosPerMilli ≤ greatestWord
  /-- Of every series that is read, the last points are there that the expression is evaluated at. -/
  lookups : ∀ batch, r.read m (.group a.group) a.rule.filters (a.window now).1 (a.window now).2
    a.rule.trigger later = .ok batch → a.rule.trigger ≤ Valuation.available batch →
      (∀ series ∈ batch.values, a.rule.trigger ≤ series.length) ∧
        ∀ name ∈ batch.names, ∀ i < a.rule.trigger,
          ∃ x, Valuation.lookup batch a.rule.trigger i name = some x

theorem neverBreaks (hfits : a.rule.Fits) (r : Reader) (m : Memory) (now later : Instant) :
    a.NeverBreaks r m now later where
  window := Instant.back_le now _
  points := Policy.pointCount_ne_zero r.le_cap
  buckets q _ := ⟨q.one_le_bucketSeconds, q.bucketSeconds_le,
    fun t => Bucket.start_bounds q.one_le_bucketSeconds q.bucketSeconds_le t⟩
  selectors _ _ _ _ hselector _ hvalues := Selector.exists_apply hselector hvalues
  runs f hf := by
    refine ⟨Transformation.one_le_atLeastOne _ _, ?_, fun _ _ => Transformation.length_of_mem_windows⟩
    have hparam := hfits.filters f hf
    simp only [Transformation.atLeastOne, greatestWord]
    cases hp : f.param with
    | none =>
      rw [Option.getD_none]
      omega
    | some p =>
      have hbound := (hparam p (Option.mem_def.mpr hp)).2
      rw [Option.getD_some]
      omega
  distances := Instant.distance_bounds
  lookups batch _ hlimit := ⟨fun _ hseries => hlimit.trans (Valuation.available_le_length hseries),
    fun _ hname _ hi => Valuation.exists_lookup hlimit hname hi⟩

/-- An accepted alarm, as it was made or as a store hands it out, is evaluated or fails with a contained
error, whatever the settings are, whatever was measured and whatever the clock shows when the window is
measured and when the read is planned. Its expression compiles, and no step breaks down. -/
theorem valuate_contained {d : Draft} {owner : String} {id : Uuid} {made : Instant}
    (hmade : d.alarm owner id made = .ok a)
    (hb : b = a ∨ ReadBack Memory.empty a b ∨ ReadBack Tables.empty a b) (s : Settings) (m : Memory)
    (now later : Instant) :
    (∃ e, b.expression = .ok e) ∧
      ((∃ v, b.valuate s.reader m now later = .ok v) ∨
        ∃ cause, b.valuate s.reader m now later = .error cause ∧ cause.IsContained) ∧
      b.NeverBreaks s.reader m now later := by
  obtain ⟨hfits, hcompiles⟩ := Draft.fits_of_alarm hmade
  have hrestores : b.Restores a := by
    rcases hb with rfl | hb | hb
    · exact ⟨rfl, fun _ => rfl, fun _ _ => rfl, .inr rfl⟩
    · have hempty : Memory.Lists .empty [] := ⟨.nil, List.nodup_nil⟩
      exact restores_of_readBack hempty hb
    · have hempty : Tables.Lists .empty [] := ⟨.nil, List.nodup_nil⟩
      exact restores_of_readBack hempty hb
  obtain ⟨hsound, hrule⟩ := (Draft.sound_of_alarm hmade).restored hfits hcompiles hrestores
  refine ⟨hsound.compiles, ?_, neverBreaks (hrule ▸ hfits) _ m now later⟩
  rcases hsound.valuate_cases s.reader m now later with ⟨requested, huncovered⟩ | ⟨e, batch, hbatch⟩
  · exact .inr ⟨_, huncovered, trivial⟩
  · rw [hbatch]
    exact Valuation.ofBatch_cases e batch hsound.one_le_trigger

open Query (second)

/-- An alarm that memory hands out is evaluated over two values, a minute apart. -/
theorem contained_two_minutes :
    ∃ a b, (heat 60 2).alarm "" (.ofNat 1) .epoch = .ok a ∧ ReadBack Memory.empty a b ∧
      (∃ e, b.expression = .ok e) ∧
      ((∃ v, b.valuate Settings.default.reader twoMinutes (second 245) (second 246) = .ok v) ∨
        ∃ cause, b.valuate Settings.default.reader twoMinutes (second 245) (second 246) =
          .error cause ∧ cause.IsContained) ∧
      b.NeverBreaks Settings.default.reader twoMinutes (second 245) (second 246) := by
  obtain ⟨a, hmade, -⟩ := exists_heat 60 2 (by decide) (by decide)
  have hcreate : Memory.empty.createAlarm a = .ok { Memory.empty with alarms := [a] } := by rfl
  have halarm : Memory.alarm { Memory.empty with alarms := [a] } a.id = .ok a.withoutHistory := by
    rw [Memory.alarm, Memory.stored_of_createAlarm hcreate]
    rfl
  have hback : ReadBack Memory.empty a a.withoutHistory :=
    ⟨[], [], _, hcreate, ⟨.alarm a.id, _, _, map_eq_ok_iff.mpr ⟨_, halarm, rfl⟩,
      List.mem_singleton_self _⟩, rfl⟩
  exact ⟨a, a.withoutHistory, hmade, hback,
    valuate_contained hmade (.inr (.inl hback)) .default twoMinutes (second 245)
      (second 246)⟩

end Alarm

end Vigil

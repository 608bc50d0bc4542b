import Vigil.Proofs.Alarm.Document
import Vigil.Proofs.Alarm.History
import Vigil.Proofs.Runner.Contained
import Vigil.Proofs.Runner.Windows
import Vigil.Proofs.Time.Stamps
import Vigil.Proofs.Uuid

/-!
# Copies of alarms

An alarm that was made of a definition is read back from its JSON form, whatever became of it since. Only
the compiled expression is not written: the copy compiles it again from its text, which no update
touches, and so evaluates as the alarm does.
-/

namespace Vigil

namespace Json

variable {members : List (String × Json)}

/-- Under names that occur once each member is found. -/
theorem member?_of_mem {m : String × Json} (h : (members.map Prod.fst).Nodup) (hm : m ∈ members) :
    member? members m.1 = some (.given m.2) := by
  obtain ⟨before, behind, rfl⟩ := List.append_of_mem hm
  rw [List.map_append, List.map_cons, List.nodup_middle, List.nodup_cons, ← List.map_append] at h
  have hother : ∀ m' ∈ before ++ behind, ¬ (m'.1 == m.1) = true := by
    intro m' hm' heq
    exact h.1 (List.mem_map.mpr ⟨m', hm', eq_of_beq heq⟩)
  have hbefore : before.filter (fun m' => m'.1 == m.1) = [] :=
    List.filter_eq_nil_iff.mpr fun m' hm' => hother m' (List.mem_append_left _ hm')
  have hbehind : behind.filter (fun m' => m'.1 == m.1) = [] :=
    List.filter_eq_nil_iff.mpr fun m' hm' => hother m' (List.mem_append_right _ hm')
  simp [member?, hbefore, hbehind]

/-- An object with one member for each field of a record says all of them. -/
theorem slots?_object {names : List String} (hnames : members.map Prod.fst = names)
    (h : names.Nodup) : slots? names (.object members) = some (members.map fun m => .given m.2) := by
  subst hnames
  have hfields : ∀ fields : List (String × Json), (∀ m ∈ fields, m ∈ members) →
      (fields.map Prod.fst).mapM (member? members) = some (fields.map fun m => .given m.2) := by
    intro fields
    induction fields with
    | nil => intro _; rfl
    | cons m rest ih =>
      intro hmem
      rw [List.map_cons, List.mapM_cons, member?_of_mem h (hmem m List.mem_cons_self),
        ih fun m' hm' => hmem m' (List.mem_cons_of_mem _ hm')]
      rfl
  exact hfields members fun m hm => hm

/-- The names of the members of an object. -/
def names : Json → List String
  | object members => members.map Prod.fst
  | _ => []

end Json

theorem Instant.ofJson?_toJson (t : Instant) : Instant.ofJson? t.toJson = some t := by
  rw [toJson, ofJson?, Json.string?, Option.bind_eq_bind, Option.bind_some, Stamp.read?_text]

theorem Uuid.ofJson?_toJson (id : Uuid) : Uuid.ofJson? id.toJson = some id := by
  rw [toJson, ofJson?, Json.string?, Option.bind_eq_bind, Option.bind_some, read?_text]

theorem Span.seconds_ofSeconds {seconds : Nat} (h : seconds < countLimit) :
    (Span.ofSeconds seconds).seconds = seconds := by
  rw [Span.seconds, Span.nanos_ofSeconds h, nanosPerSecond]
  omega

theorem Span.ofJson?_toJson {seconds : Nat} (h : seconds < countLimit) :
    Span.ofJson? (Span.ofSeconds seconds).toJson = some (.ofSeconds seconds) := by
  rw [toJson, seconds_ofSeconds h, ofJson?, nat?_int h]
  rfl

theorem Instant.optional?_ofOption (t : Option Instant) :
    Json.optional? Instant.ofJson? (Json.ofOption Instant.toJson t) = some t := by
  cases t with
  | none => rfl
  | some t =>
    have hread : Json.optional? Instant.ofJson? t.toJson = (Instant.ofJson? t.toJson).map some := rfl
    rw [Json.ofOption, hread, t.ofJson?_toJson, Option.map_some]

theorem Entry.ofJson?_toJson (e : Entry) : Entry.ofJson? e.toJson = some e := by
  have hslots : Json.slots? ["id", "alarm_id", "value", "cleared", "fired_at", "cleared_at"] e.toJson =
      some [.given e.id.toJson, .given e.alarmId.toJson, .given (.string e.value),
        .given (.bool e.cleared), .given e.firedAt.toJson,
        .given (Json.ofOption Instant.toJson e.clearedAt)] :=
    Json.slots?_object rfl (by decide)
  rw [ofJson?, hslots, Option.bind_eq_bind, Option.bind_some]
  simp only [Json.Slot.required, Json.Slot.nullable, Uuid.ofJson?_toJson, Instant.ofJson?_toJson,
    Instant.optional?_ofOption, Json.string?, Json.bool?]
  rfl

namespace Alarm

variable {a : Alarm}

def uncompiled (a : Alarm) : Alarm := { a with compiled := none }

/-- An alarm is read back up to its compiled expression when its condition fits into 64 bits and its
interval is a number of whole seconds. -/
theorem ofJson?_toJson {seconds : Nat} (hrule : a.rule.Fits) (hseconds : seconds < countLimit)
    (hinterval : a.runInterval = .ofSeconds seconds) : Alarm.ofJson? a.toJson = some a.uncompiled := by
  have hslots : Json.slots? ["id", "owner", "name", "info", "message", "group", "enabled", "fired",
      "filter", "run_interval", "last_run", "created_at", "updated_at", "history"] a.toJson =
      some [.given a.id.toJson, .given (.string a.owner), .given (.string a.name),
        .given (.string a.info), .given (.string a.message), .given (.string a.group),
        .given (.bool a.enabled), .given (.bool a.fired), .given a.rule.toJson,
        .given a.runInterval.toJson, .given a.lastRun.toJson, .given a.createdAt.toJson,
        .given a.updatedAt.toJson, .given (.array (a.history.map Entry.toJson))] :=
    Json.slots?_object rfl (by decide)
  have hspan : Span.ofJson? a.runInterval.toJson = some a.runInterval := by
    rw [hinterval]
    exact Span.ofJson?_toJson hseconds
  have hhistory : Json.list? Entry.ofJson? (.array (a.history.map Entry.toJson)) = some a.history :=
    list?_array fun e _ => e.ofJson?_toJson
  rw [ofJson?, hslots, Option.bind_eq_bind, Option.bind_some]
  simp only [Json.Slot.required, Json.Slot.orElse, Uuid.ofJson?_toJson, Instant.ofJson?_toJson,
    Rule.ofJson?_toJson hrule, hspan, hhistory, Json.string?, Json.bool?]
  rfl

/-- The times in an alarm and its history. -/
def times (a : Alarm) : List Instant :=
  a.lastRun :: a.createdAt :: a.updatedAt ::
    a.history.flatMap fun e => e.firedAt :: e.clearedAt.toList

/-- How an alarm is written whose interval is that many seconds: the interval as their number, its
identifier as text, times of years with four digits in the form of RFC 3339, and of a filter only what it
has. -/
structure Form (a : Alarm) (seconds : Nat) : Prop where
  members : Json.slots? ["id", "run_interval"] a.toJson =
    some [.given (.string a.id.text), .given (.int seconds)]
  times : ∀ t ∈ a.times, 0 ≤ Stamp.year t ∧ Stamp.year t ≤ 9999 →
    ∃ text, t.toJson = .string text ∧ Stamp.IsRfc3339 text.toList
  filters : ∀ f ∈ a.rule.filters,
    ("transformation" ∈ f.toJson.names ↔ f.transformation.isSome = true) ∧
      ("param" ∈ f.toJson.names ↔ f.param.isSome = true)

theorem form {seconds : Nat} (hseconds : seconds < countLimit)
    (hinterval : a.runInterval = .ofSeconds seconds) : a.Form seconds where
  members := by
    have hspan : a.runInterval.toJson = .int seconds := by
      rw [hinterval, Span.toJson, Span.seconds_ofSeconds hseconds]
    rw [← hspan]
    rfl
  times t _ hyear := ⟨_, rfl, Stamp.isRfc3339_text hyear⟩
  filters f _ := by
    cases htransformation : f.transformation <;> cases hparam : f.param <;>
      simp [Filter.toJson, Json.names, Json.memberIfSome, htransformation, hparam]

/-- What may be done to an alarm that is held. -/
inductive Update where
  | fire (entryId : Uuid) (value : String) (time : Instant)
  | clear (time : Instant)
  | run (time : Instant)
  | enable (enabled : Bool)

/-- The alarm after an update. A firing or a clearing may be refused. -/
def updated (a : Alarm) : Update → Alarm
  | .fire entryId value time =>
    match fireInPlace entryId value time a with
    | .ok _ a' | .error _ a' => a'
  | .clear time =>
    match clearInPlace time a with
    | .ok _ a' | .error _ a' => a'
  | .run time => { a with lastRun := time }
  | .enable enabled => { a with enabled }

def after (a : Alarm) : List Update → Alarm
  | [] => a
  | u :: rest => (a.updated u).after rest

/-- The alarm is watched under the terms of another one: no update touches them. -/
structure SameTerms (a b : Alarm) : Prop where
  rule : b.rule = a.rule
  runInterval : b.runInterval = a.runInterval
  compiled : b.compiled = a.compiled

theorem sameTerms_updated (a : Alarm) (u : Update) : a.SameTerms (a.updated u) := by
  cases u with
  | fire entryId value time =>
    rw [updated]
    by_cases hopen : a.HasOpen
    · rw [fireInPlace_of_hasOpen hopen]
      exact ⟨rfl, rfl, rfl⟩
    · rw [fireInPlace_of_not_hasOpen hopen]
      exact ⟨rfl, rfl, rfl⟩
  | clear time =>
    rw [updated]
    by_cases hopen : a.HasOpen
    · obtain ⟨e, he⟩ := hasOpen_iff.mp hopen
      have hclear := clearInPlace_of_openEntry? he time
      rw [hclear]
      exact ⟨rfl, rfl, rfl⟩
    · rw [clearInPlace_of_not_hasOpen hopen]
      exact ⟨rfl, rfl, rfl⟩
  | run time => exact ⟨rfl, rfl, rfl⟩
  | enable enabled => exact ⟨rfl, rfl, rfl⟩

theorem sameTerms_after (a : Alarm) (updates : List Update) : a.SameTerms (a.after updates) := by
  induction updates generalizing a with
  | nil => exact ⟨rfl, rfl, rfl⟩
  | cons u rest ih =>
    have hstep := a.sameTerms_updated u
    have hrest := ih (a.updated u)
    exact ⟨hrest.rule.trans hstep.rule, hrest.runInterval.trans hstep.runInterval,
      hrest.compiled.trans hstep.compiled⟩

theorem expression_of_compiled {e : Expression} (h : a.compiled = some e) : a.expression = .ok e := by
  rw [expression, h]

theorem expression_uncompiled {e : Expression} (h : Expression.compile a.rule.expression = .ok e) :
    a.uncompiled.expression = .ok e := by
  rw [expression]
  simp only [uncompiled, h]

/-- Alarms that differ in nothing but whether their expression is compiled are evaluated alike. -/
theorem valuate_uncompiled {σ : Type} [Repository σ] (h : a.uncompiled.expression = a.expression)
    (r : Reader) (store : σ) (now later : Instant) :
    a.uncompiled.valuate r store now later = a.valuate r store now later := by
  rw [valuate, valuate, h]
  rfl

/-- An alarm that was made of a definition is read back after any updates, from its JSON value and from
the text of that value, with the expression that was compiled when it was made, and so it is evaluated as
before. -/
theorem ofJson?_toJson_after_updates {σ : Type} [Repository σ] {d : Draft} {owner : String} {id : Uuid}
    {made : Instant} {first : Alarm} (h : d.alarm owner id made = .ok first) (updates : List Update) :
    Alarm.ofJson? (first.after updates).toJson = some (first.after updates).uncompiled ∧
      (Json.ofText? (first.after updates).toJson.text).bind Alarm.ofJson? =
        some (first.after updates).uncompiled ∧
      (first.after updates).Form d.interval ∧
      (∃ e, first.compiled = some e ∧ (first.after updates).uncompiled.expression = .ok e) ∧
      ∀ (r : Reader) (store : σ) (now later : Instant),
        (first.after updates).uncompiled.valuate r store now later =
          (first.after updates).valuate r store now later := by
  obtain ⟨-, hbounds, -, hinterval, e, hrule, hcompiled⟩ := Draft.makes_of_alarm h
  obtain ⟨c, -, -, hcompile, hc⟩ := Draft.rule_eq_ok_iff.mp hrule
  have hterms := first.sameTerms_after updates
  have hseconds : d.interval < countLimit := Nat.lt_of_le_of_lt hbounds.2 (by decide)
  have hfits : (first.after updates).rule.Fits := hterms.rule ▸ (Draft.fits_of_alarm h).1
  have hspan := hterms.runInterval.trans hinterval
  have hread := ofJson?_toJson hfits hseconds hspan
  have hsame : Expression.compile (first.after updates).rule.expression = .ok e := by
    rw [hterms.rule, hc]
    exact hcompile
  have hcopy := expression_uncompiled hsame
  have hheld := expression_of_compiled (hterms.compiled.trans hcompiled)
  refine ⟨hread, ?_, form hseconds hspan, ⟨e, hcompiled, hcopy⟩, ?_⟩
  · rw [Json.ofText?_text, Option.bind_some, hread]
  · exact valuate_uncompiled (hcopy.trans hheld.symm)

/-- Two firings and one that is refused, in the first and the last millisecond of the years with four
digits and close to 1970. -/
theorem ofJson?_toJson_after_two_firings :
    let yearZero : Instant := ⟨-62167219200000000000, by decide, by decide⟩
    let yearLast : Instant := ⟨253402300799999000000, by decide, by decide⟩
    let early : Instant := ⟨1500, by decide, by decide⟩
    let updates : List Update :=
      [.enable false, .run ⟨1704067199123456789, by decide, by decide⟩,
        .fire (.ofNat 2) "max_t=1.00 \"é\"" yearZero, .fire (.ofNat 3) "refused" .epoch,
        .clear yearLast, .fire (.ofNat 4) "" early]
    ∃ first copy : Alarm, (heat 60 1).alarm "" (.ofNat 1) .epoch = .ok first ∧
      Alarm.ofJson? (first.after updates).toJson = some copy ∧ copy.enabled = false ∧
      copy.updatedAt = early ∧
      copy.history =
        [⟨.ofNat 2, .ofNat 1, "max_t=1.00 \"é\"", true, yearZero, some yearLast⟩,
          ⟨.ofNat 4, .ofNat 1, "", false, early, none⟩] := by
  intro yearZero yearLast early updates
  obtain ⟨e, hrule⟩ := Watch.exists_rule
  have hname : Text.isBlankText (heat 60 1).name = false := by
    show Text.isBlankText "heat" = false
    decide
  have hmade := Draft.alarm_eq_ok hname (by decide) (by decide) hrule "" (.ofNat 1) .epoch
  have hread := ofJson?_toJson_after_updates (σ := Memory) hmade updates
  exact ⟨_, _, hmade, hread.1, rfl, rfl, rfl⟩

end Alarm

end Vigil

import Vigil.Alarm

/-!
# The history of an alarm

The flag of an alarm, the place of its open entry and the times in its entries belong together: an
alarm is coherent when it is fired exactly while one entry is open, when an open entry is the last
one, and when exactly the cleared entries carry a time of clearing. A new alarm is coherent. Firing
and clearing keep it so, each is refused exactly where the other is possible, and neither touches an
entry that is cleared already.
-/

namespace Vigil

namespace InPlace

variable {σ α β : Type} {work : InPlace σ α} {next : α → InPlace σ β} {s s' : σ}

theorem bind_of_ok {answer : α} (h : work s = .ok answer s') :
    (work >>= next) s = next answer s' := by
  show EStateM.bind work next s = _
  unfold EStateM.bind
  rw [h]

theorem bind_of_error {cause : AlarmError} (h : work s = .error cause s') :
    (work >>= next) s = .error cause s' := by
  show EStateM.bind work next s = _
  unfold EStateM.bind
  rw [h]

end InPlace

/-- The entry under no identifier of its own. -/
def Entry.unnumbered (e : Entry) : Entry :=
  { e with id := .ofNat 0 }

namespace Alarm

/-- The alarm with entries under no identifiers of their own. -/
def unnumbered (a : Alarm) : Alarm :=
  { a with history := a.history.map Entry.unnumbered }

def HasOpen (a : Alarm) : Prop :=
  ∃ e ∈ a.history, e.cleared = false

/-- Flag, open entry and times of clearing agree. -/
structure Coherent (a : Alarm) : Prop where
  fired_iff : a.fired = true ↔ (a.history.filter fun e => !e.cleared).length = 1
  open_last : ∀ (i : Nat) (hi : i < a.history.length),
    a.history[i].cleared = false → i + 1 = a.history.length
  cleared_iff : ∀ e ∈ a.history, e.cleared = true ↔ e.clearedAt.isSome = true

/-- Every cleared entry of the first history is at the same place in the second. -/
def KeepsCleared (before after : List Entry) : Prop :=
  ∀ (i : Nat) (e : Entry), before[i]? = some e → e.cleared = true → after[i]? = some e

theorem keepsCleared_refl (es : List Entry) : KeepsCleared es es := fun _ _ h _ => h

theorem keepsCleared_append (es more : List Entry) : KeepsCleared es (es ++ more) := by
  intro i e h _
  obtain ⟨hi, rfl⟩ := List.getElem?_eq_some_iff.mp h
  rw [List.getElem?_append_left hi]
  exact h

/-- An open entry may give way to any other. -/
theorem keepsCleared_replace (done : List Entry) {e : Entry} (he : e.cleared = false)
    (e' : Entry) (rest : List Entry) :
    KeepsCleared (done ++ e :: rest) (done ++ e' :: rest) := by
  intro i d h hd
  rw [List.getElem?_append] at h ⊢
  split at h
  · rename_i hi
    rw [if_pos hi]
    exact h
  · rename_i hi
    rw [if_neg hi]
    cases hk : i - done.length with
    | zero =>
      rw [hk] at h
      obtain rfl : e = d := by simpa using h
      rw [he] at hd
      cases hd
    | succ k =>
      rw [hk] at h
      simpa using h

variable {a : Alarm}

theorem openEntry?_eq_none_iff : a.openEntry? = none ↔ ¬ a.HasOpen := by
  unfold openEntry? HasOpen
  rw [List.find?_eq_none]
  constructor
  · rintro h ⟨e, he, hc⟩
    exact h e he (by rw [hc]; rfl)
  · intro h e he hc
    exact h ⟨e, he, by simpa using hc⟩

/-- The entry that is found open stands behind cleared ones. -/
theorem openEntry?_eq_some {e : Entry} (h : a.openEntry? = some e) :
    e.cleared = false ∧ ∃ done rest, a.history = done ++ e :: rest ∧
      ∀ d ∈ done, d.cleared = true := by
  obtain ⟨he, done, rest, hsplit, hdone⟩ := List.find?_eq_some_iff_append.mp h
  refine ⟨by simpa using he, done, rest, hsplit, ?_⟩
  intro d hd
  simpa using hdone d hd

theorem hasOpen_iff : a.HasOpen ↔ ∃ e, a.openEntry? = some e := by
  rw [← Option.ne_none_iff_exists', ne_eq, openEntry?_eq_none_iff, Classical.not_not]

theorem closeFirst_append {done : List Entry} (hdone : ∀ d ∈ done, d.cleared = true) {e : Entry}
    (he : e.cleared = false) (rest : List Entry) (time : Instant) :
    closeFirst time (done ++ e :: rest) = done ++ e.close time :: rest := by
  induction done with
  | nil => rw [List.nil_append, closeFirst, if_neg (by rw [he]; decide), List.nil_append]
  | cons d done ih =>
    rw [List.cons_append, closeFirst, if_pos (hdone d (by simp)),
      ih (fun d hd => hdone d (List.mem_cons_of_mem _ hd)), List.cons_append]

/-- The alarm that firing makes. -/
def opened (a : Alarm) (entryId : Uuid) (value : String) (time : Instant) : Alarm :=
  { a with
    history := a.history ++ [Entry.opened entryId a.id value time]
    fired := true
    updatedAt := time }

def closed (a : Alarm) (time : Instant) : Alarm :=
  { a with history := closeFirst time a.history, fired := false, updatedAt := time }

@[simp] theorem id_opened (entryId : Uuid) (value : String) (time : Instant) :
    (a.opened entryId value time).id = a.id := rfl

@[simp] theorem id_closed (time : Instant) : (a.closed time).id = a.id := rfl

theorem fireInPlace_of_hasOpen (h : a.HasOpen) (entryId : Uuid) (value : String)
    (time : Instant) : fireInPlace entryId value time a = .error (.conflict a.id.text) a := by
  obtain ⟨e, he⟩ := hasOpen_iff.mp h
  unfold fireInPlace
  refine (InPlace.bind_of_ok rfl).trans ?_
  rw [he]
  rfl

theorem fireInPlace_of_not_hasOpen (h : ¬ a.HasOpen) (entryId : Uuid) (value : String)
    (time : Instant) :
    fireInPlace entryId value time a =
      .ok (Entry.opened entryId a.id value time) (a.opened entryId value time) := by
  unfold fireInPlace
  refine (InPlace.bind_of_ok rfl).trans ?_
  rw [openEntry?_eq_none_iff.mpr h]
  rfl

theorem clearInPlace_of_not_hasOpen (h : ¬ a.HasOpen) (time : Instant) :
    clearInPlace time a = .error (.notFound (.openEntry a.id)) a := by
  unfold clearInPlace
  refine (InPlace.bind_of_ok rfl).trans ?_
  rw [openEntry?_eq_none_iff.mpr h]
  rfl

theorem clearInPlace_of_openEntry? {e : Entry} (h : a.openEntry? = some e) (time : Instant) :
    clearInPlace time a = .ok (e.close time) (a.closed time) := by
  unfold clearInPlace
  refine (InPlace.bind_of_ok rfl).trans ?_
  rw [h]
  rfl

theorem keepsCleared_opened (entryId : Uuid) (value : String) (time : Instant) :
    KeepsCleared a.history (a.opened entryId value time).history :=
  keepsCleared_append _ _

theorem keepsCleared_closed (h : a.HasOpen) (time : Instant) :
    KeepsCleared a.history (a.closed time).history := by
  obtain ⟨e, he⟩ := hasOpen_iff.mp h
  obtain ⟨hopen, done, rest, hsplit, hdone⟩ := openEntry?_eq_some he
  show KeepsCleared a.history (closeFirst time a.history)
  rw [hsplit, closeFirst_append hdone hopen]
  exact keepsCleared_replace done hopen _ rest

theorem length_closed (h : a.HasOpen) (time : Instant) :
    (a.closed time).history.length = a.history.length := by
  obtain ⟨e, he⟩ := hasOpen_iff.mp h
  obtain ⟨hopen, done, rest, hsplit, hdone⟩ := openEntry?_eq_some he
  show (closeFirst time a.history).length = a.history.length
  rw [hsplit, closeFirst_append hdone hopen]
  simp

/-- The values and the times of the firings that a history records. -/
def firings (a : Alarm) : List (String × Instant) :=
  a.history.map fun e => (e.value, e.firedAt)

theorem firings_opened (entryId : Uuid) (value : String) (time : Instant) :
    (a.opened entryId value time).firings = a.firings ++ [(value, time)] :=
  List.map_append

/-- Clearing changes neither the value nor the time of a firing. -/
theorem firings_closed (time : Instant) : (a.closed time).firings = a.firings := by
  show (closeFirst time a.history).map _ = a.history.map _
  induction a.history with
  | nil => rfl
  | cons e es ih =>
    cases hcleared : e.cleared with
    | true => simpa [closeFirst, hcleared] using ih
    | false => simp [closeFirst, Entry.close, hcleared]

@[simp] theorem id_unnumbered (a : Alarm) : a.unnumbered.id = a.id := rfl

theorem hasOpen_unnumbered : a.unnumbered.HasOpen ↔ a.HasOpen := by
  simp only [HasOpen, unnumbered, List.mem_map]
  constructor
  · rintro ⟨-, ⟨e, he, rfl⟩, hopen⟩
    exact ⟨e, he, hopen⟩
  · rintro ⟨e, he, hopen⟩
    exact ⟨_, ⟨e, he, rfl⟩, hopen⟩

theorem unnumbered_opened (entryId : Uuid) (value : String) (time : Instant) :
    (a.opened entryId value time).unnumbered = a.unnumbered.opened (.ofNat 0) value time := by
  simp only [opened, unnumbered, List.map_append, List.map_singleton]
  rfl

theorem map_unnumbered_closeFirst (time : Instant) (es : List Entry) :
    (closeFirst time es).map Entry.unnumbered = closeFirst time (es.map Entry.unnumbered) := by
  induction es with
  | nil => rfl
  | cons e es ih =>
    cases hcleared : e.cleared with
    | true => simp [closeFirst, Entry.unnumbered, hcleared, ih]
    | false => simp [closeFirst, Entry.unnumbered, Entry.close, hcleared]

theorem unnumbered_closed (time : Instant) :
    (a.closed time).unnumbered = a.unnumbered.closed time := by
  simp only [closed, unnumbered, map_unnumbered_closeFirst]

/-- Without an open entry an alarm is coherent as long as it is not fired. -/
theorem coherent_of_closed (hfired : a.fired = false)
    (hdone : ∀ e ∈ a.history, e.cleared = true ∧ e.clearedAt.isSome = true) : a.Coherent := by
  constructor
  · have hnone : (a.history.filter fun e => !e.cleared) = [] := by
      rw [List.filter_eq_nil_iff]
      intro e he
      simp [(hdone e he).1]
    rw [hfired, hnone]
    simp
  · intro i hi hopen
    rw [(hdone _ (List.getElem_mem hi)).1] at hopen
    cases hopen
  · intro e he
    simp [hdone e he]

/-- A fired alarm with one open entry, at the end, is coherent. -/
theorem coherent_of_opened {done : List Entry} {e : Entry} (hfired : a.fired = true)
    (hsplit : a.history = done ++ [e])
    (hdone : ∀ d ∈ done, d.cleared = true ∧ d.clearedAt.isSome = true)
    (hopen : e.cleared = false) (hnone : e.clearedAt = none) : a.Coherent := by
  constructor
  · have hdropped : (done.filter fun d => !d.cleared) = [] := by
      rw [List.filter_eq_nil_iff]
      intro d hd
      simp [(hdone d hd).1]
    rw [hfired, hsplit, List.filter_append, hdropped]
    simp [hopen]
  · intro i hi hclosed
    simp only [hsplit] at hclosed hi ⊢
    rw [List.length_append, List.length_singleton] at hi ⊢
    rcases Nat.lt_or_ge i done.length with hlt | hge
    · rw [List.getElem_append_left hlt, (hdone _ (List.getElem_mem hlt)).1] at hclosed
      cases hclosed
    · omega
  · intro d hd
    rw [hsplit, List.mem_append, List.mem_singleton] at hd
    rcases hd with hd | rfl
    · simp [hdone d hd]
    · simp [hopen, hnone]

/-- What stands before an open entry of a coherent alarm is cleared, and nothing stands behind. -/
theorem Coherent.history_eq (h : a.Coherent) {e : Entry} {done rest : List Entry}
    (hsplit : a.history = done ++ e :: rest) (hopen : e.cleared = false) : rest = [] := by
  have hlen : a.history.length = done.length + (rest.length + 1) := by
    rw [hsplit, List.length_append, List.length_cons]
  have hlast := h.open_last done.length (by omega) (by simp [hsplit, hopen])
  exact List.eq_nil_of_length_eq_zero (by omega)

/-- A coherent alarm is fired exactly while it has an open entry. -/
theorem Coherent.fired_eq_true_iff (h : a.Coherent) : a.fired = true ↔ a.HasOpen := by
  constructor
  · intro hfired
    have hone := h.fired_iff.mp hfired
    obtain ⟨e, he⟩ := List.exists_mem_of_length_pos (l := a.history.filter fun e => !e.cleared)
      (by omega)
    rw [List.mem_filter] at he
    exact ⟨e, he.1, by simpa using he.2⟩
  · intro hopen
    obtain ⟨e, he⟩ := hasOpen_iff.mp hopen
    obtain ⟨hclosed, done, rest, hsplit, hdone⟩ := openEntry?_eq_some he
    have hrest := h.history_eq hsplit hclosed
    subst hrest
    rw [h.fired_iff, hsplit, List.filter_append, List.filter_eq_nil_iff.mpr]
    · simp [hclosed]
    · intro d hd
      simp [hdone d hd]

theorem coherent_of_new (hfired : a.fired = false) (hhistory : a.history = []) : a.Coherent :=
  coherent_of_closed hfired (by rw [hhistory]; simp)

/-- Clearing a coherent alarm closes its last entry, behind cleared ones. -/
theorem Coherent.history_closed (h : a.Coherent) (hopen : a.HasOpen) (time : Instant) :
    ∃ done e, a.history = done ++ [e] ∧ (a.closed time).history = done ++ [e.close time] ∧
      e.clearedAt = none ∧ ∀ d ∈ done, d.cleared = true ∧ d.clearedAt.isSome = true := by
  obtain ⟨e, he⟩ := hasOpen_iff.mp hopen
  obtain ⟨hclosed, done, rest, hsplit, hdone⟩ := openEntry?_eq_some he
  have hrest := h.history_eq hsplit hclosed
  subst hrest
  refine ⟨done, e, hsplit, ?_, ?_, ?_⟩
  · show closeFirst time a.history = _
    rw [hsplit, closeFirst_append hdone hclosed]
  · have hiff := h.cleared_iff e (by rw [hsplit]; simp)
    rw [hclosed] at hiff
    simpa using hiff
  · intro d hd
    have hmem : d ∈ a.history := by
      rw [hsplit]
      exact List.mem_append_left _ hd
    exact ⟨hdone d hd, (h.cleared_iff d hmem).mp (hdone d hd)⟩

theorem Coherent.closed (h : a.Coherent) (hopen : a.HasOpen) (time : Instant) :
    (a.closed time).Coherent := by
  obtain ⟨done, e, -, hafter, -, hdone⟩ := h.history_closed hopen time
  refine coherent_of_closed rfl ?_
  intro d hd
  rw [hafter, List.mem_append, List.mem_singleton] at hd
  rcases hd with hd | rfl
  · exact hdone d hd
  · exact ⟨rfl, rfl⟩

/-- In a coherent alarm without an open entry every entry says when it was cleared. -/
theorem Coherent.isSome_clearedAt (h : a.Coherent) (hopen : ¬ a.HasOpen) :
    ∀ e ∈ a.history, e.cleared = true ∧ e.clearedAt.isSome = true := by
  intro e he
  have hcleared : e.cleared = true := by
    cases hopen' : e.cleared with
    | true => rfl
    | false => exact absurd ⟨e, he, hopen'⟩ hopen
  exact ⟨hcleared, (h.cleared_iff e he).mp hcleared⟩

theorem Coherent.opened (h : a.Coherent) (hopen : ¬ a.HasOpen) (entryId : Uuid) (value : String)
    (time : Instant) : (a.opened entryId value time).Coherent :=
  coherent_of_opened rfl rfl (h.isSome_clearedAt hopen) rfl rfl

/-- Coherence speaks of the flag and the history alone. -/
theorem Coherent.congr (h : a.Coherent) {b : Alarm} (hfired : b.fired = a.fired)
    (hhistory : b.history = a.history) : b.Coherent := by
  obtain ⟨hf, hl, hc⟩ := h
  constructor
  · rw [hfired, hhistory]
    exact hf
  · simp only [hhistory]
    exact hl
  · rw [hhistory]
    exact hc

end Alarm

end Vigil

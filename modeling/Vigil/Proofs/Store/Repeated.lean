import Vigil.Proofs.Store.Tagged

/-!
# A measurement that is written twice

A measurement may arrive more than once. Tables keep one value for a device, name and millisecond, so
writing it again changes nothing. Memory keeps what arrives: the second copy of a point comes to stand
right behind the first, in the series and in all points of a source, and so in its bucket. That shows
in the sum, the number and the middle of a bucket, but not in its ends and extremes.
-/

namespace Vigil

/-- The second list has one more copy of a member, right behind the member. -/
def Doubled {α : Type} (x : α) (list list' : List α) : Prop :=
  ∃ front back, list = front ++ x :: back ∧ list' = front ++ x :: x :: back

namespace Doubled

variable {α β : Type} {x : α} {list list' : List α}

theorem start (x : α) (back : List α) : Doubled x (x :: back) (x :: x :: back) :=
  ⟨[], back, rfl, rfl⟩

theorem cons (h : Doubled x list list') (a : α) : Doubled x (a :: list) (a :: list') := by
  obtain ⟨front, back, rfl, rfl⟩ := h
  exact ⟨a :: front, back, rfl, rfl⟩

theorem append_left (h : Doubled x list list') (more : List α) :
    Doubled x (more ++ list) (more ++ list') := by
  obtain ⟨front, back, rfl, rfl⟩ := h
  exact ⟨more ++ front, back, (List.append_assoc ..).symm, (List.append_assoc ..).symm⟩

theorem append_right (h : Doubled x list list') (more : List α) :
    Doubled x (list ++ more) (list' ++ more) := by
  obtain ⟨front, back, rfl, rfl⟩ := h
  exact ⟨front, back ++ more, List.append_assoc .., List.append_assoc ..⟩

theorem map (h : Doubled x list list') (g : α → β) : Doubled (g x) (list.map g) (list'.map g) := by
  obtain ⟨front, back, rfl, rfl⟩ := h
  exact ⟨front.map g, back.map g, List.map_append .., List.map_append ..⟩

theorem filter {keep : α → Bool} (h : Doubled x list list') (hx : keep x = true) :
    Doubled x (list.filter keep) (list'.filter keep) := by
  obtain ⟨front, back, rfl, rfl⟩ := h
  refine ⟨front.filter keep, back.filter keep, ?_, ?_⟩ <;>
    simp only [List.filter_append, List.filter_cons_of_pos hx]

theorem filter_eq {keep : α → Bool} (h : Doubled x list list') (hx : keep x = false) :
    list'.filter keep = list.filter keep := by
  obtain ⟨front, back, rfl, rfl⟩ := h
  simp [hx]

end Doubled

section InOrder

variable {p : Point} {points points' : List Point} {series series' : Series}

theorem doubled_insertPoint (p : Point) (series : Series) :
    Doubled p (Memory.insertPoint p series) (Memory.insertPoint p (Memory.insertPoint p series)) := by
  have hself : p.time ≤ p.time := Int.le_refl _
  induction series with
  | nil =>
    rw [Memory.insertPoint, Memory.insertPoint, if_pos hself, Memory.insertPoint]
    exact .start p []
  | cons q rest ih =>
    rw [Memory.insertPoint]
    by_cases hqp : q.time ≤ p.time
    · rw [if_pos hqp, Memory.insertPoint, if_pos hqp]
      exact ih.cons q
    · rw [if_neg hqp, Memory.insertPoint, if_pos hself, Memory.insertPoint, if_neg hqp]
      exact .start p (q :: rest)

/-- A point is put behind both copies or before both. -/
theorem Doubled.insertPoint (h : Doubled p series series') (q : Point) :
    Doubled p (Memory.insertPoint q series) (Memory.insertPoint q series') := by
  obtain ⟨front, back, rfl, rfl⟩ := h
  induction front with
  | nil =>
    by_cases hpq : p.time ≤ q.time
    · simp only [List.nil_append, Memory.insertPoint, if_pos hpq]
      exact .start p _
    · simp only [List.nil_append, Memory.insertPoint, if_neg hpq]
      exact (Doubled.start p back).cons q
  | cons r front ih =>
    rw [List.cons_append, List.cons_append, Memory.insertPoint, Memory.insertPoint]
    by_cases hrq : r.time ≤ q.time
    · rw [if_pos hrq, if_pos hrq]
      exact ih.cons r
    · rw [if_neg hrq, if_neg hrq]
      exact ((Doubled.start p back).append_left (r :: front)).cons q

/-- Both copies come to stand side by side. -/
theorem Doubled.inOrder (h : Doubled p points points') :
    Doubled p (inOrder points) (inOrder points') := by
  obtain ⟨front, back, rfl, rfl⟩ := h
  induction back using List.reverseRecOn with
  | nil =>
    have htwice : front ++ [p, p] = front ++ [p] ++ [p] := (List.append_assoc front [p] [p]).symm
    rw [htwice, inOrder_concat (front ++ [p]), inOrder_concat]
    exact doubled_insertPoint p _
  | append_singleton back q ih =>
    have hlast : front ++ p :: (back ++ [q]) = front ++ p :: back ++ [q] :=
      (List.append_assoc front (p :: back) [q]).symm
    have hlast' : front ++ p :: p :: (back ++ [q]) = front ++ p :: p :: back ++ [q] :=
      (List.append_assoc front (p :: p :: back) [q]).symm
    rw [hlast, hlast', inOrder_concat, inOrder_concat]
    exact ih.insertPoint q

end InOrder

namespace Selector

/-- A value that is there twice counts as if it were there once. -/
def ignoresCopies : Selector → Bool
  | max | min | first | last | spread => true
  | mean | sum | count | median | stddev => false

theorem choice_cases {first second third : Prop} [Decidable first] [Decidable second] [Decidable third]
    (a b : Float) : (if first then b else if second then a else if third then b else a) = a ∨
      (if first then b else if second then a else if third then b else a) = b := by
  split
  · exact .inr rfl
  · split
    · exact .inl rfl
    · split
      · exact .inr rfl
      · exact .inl rfl

theorem larger_cases (a b : Float) : larger a b = a ∨ larger a b = b :=
  choice_cases a b

theorem smaller_cases (a b : Float) : smaller a b = a ∨ smaller a b = b :=
  choice_cases a b

/-- A choice between two values that has been made is made once more. -/
theorem foldl_doubled {choose : Float → Float → Float} (h : ∀ a b, choose a b = a ∨ choose a b = b)
    {v : Float} {values values' : List Float} (hdoubled : Doubled v values values') (a : Float) :
    values'.foldl choose a = values.foldl choose a := by
  obtain ⟨front, back, rfl, rfl⟩ := hdoubled
  have htwice : ∀ b, choose (choose b v) v = choose b v := by
    intro b
    rcases h b v with hchoice | hchoice
    · rw [hchoice, hchoice]
    · rw [hchoice]
      exact (h v v).elim id id
  rw [List.foldl_append, List.foldl_append, List.foldl_cons, List.foldl_cons, List.foldl_cons, htwice]

theorem apply_doubled {selector : Selector} (h : selector.ignoresCopies = true) {v : Float}
    {values values' : List Float} (hdoubled : Doubled v values values') :
    selector.apply values' = selector.apply values := by
  have hmax : largest values' = largest values := foldl_doubled larger_cases hdoubled _
  have hmin : smallest values' = smallest values := foldl_doubled smaller_cases hdoubled _
  obtain ⟨front, back, rfl, rfl⟩ := hdoubled
  have hempty : (front ++ v :: v :: back).isEmpty = (front ++ v :: back).isEmpty := by
    cases front <;> rfl
  unfold apply
  rw [hempty]
  cases selector with
  | max => rw [hmax]
  | min => rw [hmin]
  | spread => rw [hmax, hmin]
  | first => cases front <;> rfl
  | last => simp
  | mean | sum | count | median | stddev => cases h

end Selector

namespace Bucket

variable {s : Int} {v : Float}

/-- One bucket has the values of the other, or one of them twice. -/
def AlikeBut (v : Float) (b b' : Int × List Float) : Prop :=
  b'.1 = b.1 ∧ (b'.2 = b.2 ∨ Doubled v b.2 b'.2)

theorem forall₂_refl (v : Float) (buckets : List (Int × List Float)) :
    List.Forall₂ (AlikeBut v) buckets buckets :=
  List.forall₂_same.mpr fun _ _ => ⟨rfl, .inl rfl⟩

/-- The second copy falls into the bucket of the first. -/
theorem forall₂_gather {placed placed' : List (Int × Float)} (h : Doubled (s, v) placed placed') :
    List.Forall₂ (AlikeBut v) (gather placed) (gather placed') := by
  obtain ⟨front, back, rfl, rfl⟩ := h
  induction front with
  | nil =>
    rcases gather_cons_cases s v back with ⟨vs, more, -, hfirst⟩ | ⟨hfirst, -⟩
    · rw [List.nil_append, List.nil_append, gather_of_same hfirst, hfirst]
      exact .cons ⟨rfl, .inr (.start v vs)⟩ (forall₂_refl v more)
    · rw [List.nil_append, List.nil_append, gather_of_same hfirst, hfirst]
      exact .cons ⟨rfl, .inr (.start v [])⟩ (forall₂_refl v _)
  | cons x front ih =>
    obtain ⟨t, u⟩ := x
    rw [List.cons_append, List.cons_append]
    rcases gather_cons_cases t u (front ++ (s, v) :: back) with
      ⟨vs, more, hfirst, hjoins⟩ | ⟨howns, hapart⟩
    · rw [hfirst] at ih
      obtain ⟨⟨t', vs'⟩, more', ⟨htime, hvalues⟩, hmore, hfirst'⟩ :=
        List.forall₂_cons_left_iff.mp ih
      obtain rfl : t' = t := htime
      rw [hjoins, gather_of_same hfirst']
      exact .cons ⟨rfl, hvalues.imp (congrArg (u :: ·)) (Doubled.cons · u)⟩ hmore
    · rcases gather_cons_cases t u (front ++ (s, v) :: (s, v) :: back) with
        ⟨vs', more', hfirst', -⟩ | ⟨howns', -⟩
      · rw [hfirst'] at ih
        obtain ⟨b, more, ⟨htime, -⟩, -, hfirst⟩ := List.forall₂_cons_right_iff.mp ih
        exact absurd htime (hapart b more hfirst)
      · rw [howns, howns']
        exact .cons ⟨rfl, .inl rfl⟩ ih

end Bucket

theorem filterMap_eq_of_forall₂ {α β : Type} {R : α → α → Prop} {g : α → Option β}
    {list list' : List α} (h : List.Forall₂ R list list') (hg : ∀ a b, R a b → g b = g a) :
    list'.filterMap g = list.filterMap g := by
  induction h with
  | nil => rfl
  | cons hab _ ih => rw [List.filterMap_cons, List.filterMap_cons, hg _ _ hab, ih]

namespace Query

variable {q : Query} {f : Filter} {p : Point} {raw raw' : List Point}

/-- An answer is made of the grouped points alone. -/
theorem answer_of_grouped (h : ∀ selector, f.selector? = .ok selector →
    q.grouped selector f raw' = q.grouped selector f raw) : q.answer f raw' = q.answer f raw := by
  unfold answer unlimited
  cases hselector : f.selector? with
  | error cause => rfl
  | ok selector =>
    show Except.map _ (f.transformation? >>= _) = Except.map _ (f.transformation? >>= _)
    simp only [h selector hselector]

/-- A filter gives the same answer when a point is there twice: the point lies outside the range, or the
selector does not count how often a value is there. -/
def Overlooks (q : Query) (p : Point) (f : Filter) : Prop :=
  ¬ (q.rawStart f ≤ p.time ∧ p.time ≤ q.stop) ∨
    ∀ selector, f.selector? = .ok selector → selector.ignoresCopies = true

theorem grouped_doubled {selector : Selector} (hselector : selector.ignoresCopies = true)
    (h : Doubled p raw raw') (hraw : raw.Pairwise Point.Precedes) (hraw' : raw'.Pairwise Point.Precedes)
    (hin : q.rawStart f ≤ p.time ∧ p.time ≤ q.stop) :
    q.grouped selector f raw' = q.grouped selector f raw := by
  have hgather : ∀ points : List Point, points.Pairwise Point.Precedes →
      Bucket.ofPoints points (q.rawStart f) q.stop q.bucketSeconds =
        Bucket.gather (Bucket.placed points (q.rawStart f) q.stop q.bucketSeconds) := by
    intro points hpoints
    refine Bucket.ofPoints_of_pairwise (List.pairwise_map.mpr ((hpoints.filter _).imp ?_))
    exact fun hle => Bucket.start_mono (by omega) hle
  have hinside : Doubled p (raw.filter fun p => q.rawStart f ≤ p.time && p.time ≤ q.stop)
      (raw'.filter fun p => q.rawStart f ≤ p.time && p.time ≤ q.stop) :=
    h.filter (by simpa using hin)
  have hplaced := hinside.map fun p => (Bucket.start (max q.bucketSeconds 1) p.time, p.value)
  have hbuckets := Bucket.forall₂_gather hplaced
  rw [grouped, grouped, hgather raw hraw, hgather raw' hraw']
  refine filterMap_eq_of_forall₂ hbuckets ?_
  rintro ⟨s, values⟩ ⟨s', values'⟩ ⟨hstart, hvalues⟩
  obtain rfl : s' = s := hstart
  have hvalue : selector.apply values' = selector.apply values :=
    hvalues.elim (congrArg _) (Selector.apply_doubled hselector)
  simp only [hvalue]

theorem answer_doubled (hoverlooks : q.Overlooks p f) (h : Doubled p raw raw')
    (hraw : raw.Pairwise Point.Precedes) (hraw' : raw'.Pairwise Point.Precedes) :
    q.answer f raw' = q.answer f raw := by
  by_cases hin : q.rawStart f ≤ p.time ∧ p.time ≤ q.stop
  · have hignores := hoverlooks.resolve_left (not_not_intro hin)
    exact answer_of_grouped fun selector hselector =>
      grouped_doubled (hignores selector hselector) h hraw hraw' hin
  · refine answer_congr (h.filter_eq ?_)
    simpa [Bool.and_eq_false_iff] using hin

end Query

namespace Tables

variable {t after : Tables} {w : Measurement} {row other : ValueRow} {rows : List ValueRow}

theorem sameKey_iff {r s : ValueRow} :
    sameKey r s = true ↔ r.device = s.device ∧ r.key = s.key ∧ r.timestamp = s.timestamp := by
  simp [sameKey, and_assoc]

theorem putValue_twice (row : ValueRow) (rows : List ValueRow) :
    putValue row (putValue row rows) = putValue row rows := by
  have hself : sameKey row row = true := sameKey_iff.mpr ⟨rfl, rfl, rfl⟩
  induction rows with
  | nil => rw [putValue, putValue, if_pos hself]
  | cons r rest ih =>
    rw [putValue]
    by_cases hr : sameKey r row = true
    · rw [if_pos hr, putValue, if_pos hself]
    · rw [if_neg hr, putValue, if_neg hr, ih]

/-- A value that is there already stays when one of another device, name or millisecond is put in. -/
theorem putValue_of_settled (hne : ¬ sameKey row other = true) (h : putValue row rows = rows) :
    putValue row (putValue other rows) = putValue other rows := by
  have hne' : ¬ sameKey other row = true := by
    rw [sameKey_iff] at hne ⊢
    exact fun heq => hne ⟨heq.1.symm, heq.2.1.symm, heq.2.2.symm⟩
  induction rows with
  | nil => cases h
  | cons r rest ih =>
    rw [putValue] at h
    rw [putValue]
    by_cases hr : sameKey r row = true
    · rw [if_pos hr] at h
      obtain rfl : row = r := (List.cons.inj h).1
      rw [if_neg hne, putValue, if_pos hr]
    · rw [if_neg hr] at h
      have hrest : putValue row rest = rest := (List.cons.inj h).2
      by_cases ho : sameKey r other = true
      · rw [if_pos ho, putValue, if_neg hne', hrest]
      · rw [if_neg ho, putValue, if_neg hr, ih hrest]

theorem foldl_putValue_of_settled {new : List ValueRow} (hne : ∀ r ∈ new, ¬ sameKey row r = true)
    (h : putValue row rows = rows) :
    putValue row (new.foldl (fun rows row => putValue row rows) rows) =
      new.foldl (fun rows row => putValue row rows) rows := by
  induction new generalizing rows with
  | nil => exact h
  | cons r new ih =>
    exact ih (fun s hs => hne s (List.mem_cons_of_mem _ hs))
      (putValue_of_settled (hne r List.mem_cons_self) h)

/-- Values that differ in device, name or millisecond are all there once they are put in. -/
theorem settled_foldl_putValue {new : List ValueRow}
    (hnew : new.Pairwise fun r s => ¬ sameKey r s = true) (rows : List ValueRow) :
    ∀ row ∈ new, putValue row (new.foldl (fun rows row => putValue row rows) rows) =
      new.foldl (fun rows row => putValue row rows) rows := by
  induction new generalizing rows with
  | nil => exact fun row hrow => absurd hrow List.not_mem_nil
  | cons r new ih =>
    obtain ⟨hr, hnew⟩ := List.pairwise_cons.mp hnew
    intro row hrow
    rcases List.mem_cons.mp hrow with rfl | hrow
    · rw [List.foldl_cons]
      exact foldl_putValue_of_settled hr (putValue_twice row rows)
    · exact ih hnew (putValue r rows) row hrow

theorem foldl_putValue_eq {new : List ValueRow} (h : ∀ row ∈ new, putValue row rows = rows) :
    new.foldl (fun rows row => putValue row rows) rows = rows := by
  induction new with
  | nil => rfl
  | cons r new ih =>
    rw [List.foldl_cons, h r List.mem_cons_self]
    exact ih fun row hrow => h row (List.mem_cons_of_mem _ hrow)

theorem pairwise_valueRows (w : Measurement) :
    (valueRows w).Pairwise fun r s => ¬ sameKey r s = true := by
  refine List.pairwise_map.mpr (w.values.ascending.imp ?_)
  intro a b hlt hsame
  have hkey : a.1 = b.1 := (sameKey_iff.mp hsame).2.1
  exact String.lt_irrefl _ (hkey ▸ hlt)

/-- A measurement that was written may be written again. -/
theorem write_again (h : t.write w = .ok after) : after.write w = .ok after := by
  unfold write at h ⊢
  split at h
  · cases h
  · rename_i hnumbers
    cases h
    rw [if_neg hnumbers]
    refine congrArg (fun values => Except.ok { t with values }) ?_
    exact foldl_putValue_eq (settled_foldl_putValue (pairwise_valueRows w) t.values)

end Tables

namespace Repository

variable {σ : Type} [Repository σ]

/-- The store after a measurement; one that is refused leaves it as it was. -/
def receive (store : σ) (w : Measurement) : σ :=
  match Repository.write store w with
  | .ok after => after
  | .error _ => store

/-- The store after measurements that arrive one after the other. -/
def receiveAll (store : σ) (ws : List Measurement) : σ :=
  ws.foldl receive store

end Repository

open Repository (receive receiveAll)
open Measurement (latestGroups)

theorem Tables.receive_again (t : Tables) (w : Measurement) : receive (receive t w) w = receive t w := by
  cases h : Repository.write t w with
  | error cause =>
    have hsame : receive t w = t := by rw [receive, h]
    rw [hsame, hsame]
  | ok after =>
    have hafter : receive t w = after := by rw [receive, h]
    have hagain : Repository.write after w = .ok after := Tables.write_again h
    rw [hafter, receive, hagain]

theorem Tables.receiveAll_again (t : Tables) (before after : List Measurement) (w : Measurement) :
    receiveAll t (before ++ w :: w :: after) = receiveAll t (before ++ w :: after) := by
  simp only [receiveAll, List.foldl_append, List.foldl_cons, Tables.receive_again]

theorem Query.lastOf_of_le {α : Type} {n : Nat} {list : List α} (h : list.length ≤ n) :
    lastOf n list = list := by
  rw [lastOf, Nat.sub_eq_zero_of_le h, List.drop_zero]

theorem Named.names_eq {α : Type} {m m' : Named α} (h : ∀ name, name ∈ m.names ↔ name ∈ m'.names) :
    m.names = m'.names := by
  have hperm : m.names.Perm m'.names :=
    (List.perm_ext_iff_of_nodup m.nodup_names m'.nodup_names).mpr h
  refine hperm.eq_of_pairwise ?_ (List.pairwise_map.mpr m.ascending) (List.pairwise_map.mpr m'.ascending)
  exact fun a b _ _ hab hba => absurd (String.lt_trans hab hba) (String.lt_irrefl a)

theorem mapM_congr {α β ε : Type} {g g' : α → Except ε β} {list : List α}
    (h : ∀ a ∈ list, g' a = g a) : list.mapM g' = list.mapM g := by
  induction list with
  | nil => rfl
  | cons a rest ih =>
    rw [List.mapM_cons, List.mapM_cons, h a List.mem_cons_self,
      ih fun b hb => h b (List.mem_cons_of_mem a hb)]

namespace Memory

variable {m m' : Memory} {w : Measurement} {ws before after : List Measurement}
  {device key name : String} {source : Source} {p : Point} {v : Float}

theorem foldlM_write_eq (m : Memory) (ws : List Measurement) :
    ws.foldlM write m = .ok (receiveAll m ws) := by
  induction ws generalizing m with
  | nil => rfl
  | cons w ws ih =>
    rw [List.foldlM_cons]
    exact bind_eq_ok_iff.mpr ⟨receive m w, rfl, ih (receive m w)⟩

/-- The source asks for the device: by its name, or by a group that it was last written with. -/
def Reads (m : Memory) (source : Source) (device : String) : Prop :=
  match source with
  | .device wanted => device = wanted
  | .group group => group ∈ m.groupsOf device

instance (m : Memory) (source : Source) (device : String) : Decidable (m.Reads source device) := by
  unfold Reads
  split <;> infer_instance

/-- The points under a name that a source has of a device. -/
def part (m : Memory) (source : Source) (key device : String) : Series :=
  if m.Reads source device then m.points device key else []

/-- All points of a source are those of its devices. -/
theorem raw_eq (m : Memory) (source : Source) (key : String) :
    m.raw source key = inOrder (m.devices.names.flatMap (m.part source key)) := by
  rw [raw, inOrder, Named.names, List.flatMap_map]
  refine congrArg (List.mergeSort · _) (List.flatMap_congr ?_)
  rintro ⟨name, d⟩ he
  have hget : m.devices.get? name = some d := Named.get?_eq_some_iff.mpr he
  have hpoints : m.points name key = (d.series.get? key).getD [] := by
    rw [points, hget, Option.bind_some]
  have hreads : isOf source name d = true ↔ m.Reads source name := by
    cases source with
    | device wanted => exact beq_iff_eq
    | group group =>
      rw [Reads, groupsOf, hget]
      exact List.contains_iff_mem
  rw [part, hpoints]
  exact if_congr hreads rfl rfl

theorem mem_names_receiveAll (ws : List Measurement) (m : Memory) :
    name ∈ (receiveAll m ws).devices.names ↔
      name ∈ m.devices.names ∨ ∃ w ∈ ws, w.device = name := by
  induction ws generalizing m with
  | nil => exact (or_iff_left fun ⟨_, hw, _⟩ => List.not_mem_nil hw).symm
  | cons w ws ih =>
    have hfirst : name ∈ (receive m w).devices.names ↔ name = w.device ∨ name ∈ m.devices.names :=
      Named.mem_names_insert
    refine (ih (receive m w)).trans ?_
    rw [hfirst, List.exists_mem_cons_iff, eq_comm (a := name)]
    tauto

/-- A measurement makes one point under a name that it has a value for. -/
theorem written_eq_toList (w : Measurement) (key : String) :
    written [w] w.device key = ((w.values.get? key).map fun v => (⟨w.time, v⟩ : Point)).toList := by
  have hflat : ∀ entries : List (String × Float),
      (entries.filter fun e => e.1 = key).map (fun e => (⟨w.time, e.2⟩ : Point)) =
        entries.flatMap fun e => if e.1 = key then [⟨w.time, e.2⟩] else [] := by
    intro entries
    induction entries with
    | nil => rfl
    | cons e entries ih => by_cases hkey : e.1 = key <;> simp [hkey, ih]
  rw [written_singleton, hflat, Named.flatMap_of_name fun e _ hne => if_neg hne]
  cases w.values.get? key <;> simp

theorem written_again (before after : List Measurement) (w : Measurement) (device key : String) :
    written (before ++ w :: after) device key =
        written before device key ++ (written [w] device key ++ written after device key) ∧
      written (before ++ w :: w :: after) device key = written before device key ++
        (written [w] device key ++ (written [w] device key ++ written after device key)) := by
  have hsplit : ∀ more, written (w :: more) device key =
      written [w] device key ++ written more device key := fun more => written_append [w] more device key
  rw [written_append, written_append, hsplit (w :: after), hsplit after]
  exact ⟨rfl, rfl⟩

theorem written_again_eq (h : written [w] device key = []) :
    written (before ++ w :: w :: after) device key = written (before ++ w :: after) device key := by
  obtain ⟨honce, htwice⟩ := written_again before after w device key
  rw [honce, htwice, h, List.nil_append]

theorem doubled_written (h : w.values.get? key = some v) :
    Doubled ⟨w.time, v⟩ (written (before ++ w :: after) w.device key)
      (written (before ++ w :: w :: after) w.device key) := by
  obtain ⟨honce, htwice⟩ := written_again before after w w.device key
  rw [honce, htwice, written_eq_toList, h]
  exact (Doubled.start _ _).append_left _

theorem points_receiveAll (ws : List Measurement) (device key : String) :
    (receiveAll .empty ws : Memory).points device key =
      Query.lastOf capacity (inOrder (written ws device key)) := by
  obtain ⟨m, hm, hpoints⟩ := exists_writes_latest ws
  obtain rfl : receiveAll .empty ws = m := Except.ok.inj ((foldlM_write_eq .empty ws).symm.trans hm)
  exact hpoints device key

theorem groupsOf_receiveAll (ws : List Measurement) (device : String) :
    (receiveAll .empty ws : Memory).groupsOf device = latestGroups ws device :=
  groupsOf_of_writes (foldlM_write_eq .empty ws) device

theorem latestGroups_again (before after : List Measurement) (w : Measurement) (device : String) :
    latestGroups (before ++ w :: w :: after) device = latestGroups (before ++ w :: after) device := by
  simp only [latestGroups, List.foldl_append, List.foldl_cons]
  by_cases hdevice : w.device = device
  · rw [if_pos hdevice, if_pos hdevice]
  · rw [if_neg hdevice, if_neg hdevice]

theorem raw_congr (hnames : m'.devices.names = m.devices.names)
    (hparts : ∀ device, m'.part source key device = m.part source key device) :
    m'.raw source key = m.raw source key := by
  rw [raw_eq, raw_eq, hnames]
  exact congrArg inOrder (List.flatMap_congr fun device _ => hparts device)

/-- Of all points of a source one is there twice when it is so of one device. -/
theorem doubled_raw (hnames : m'.devices.names = m.devices.names) (hdevice : device ∈ m.devices.names)
    (hothers : ∀ other, other ≠ device → m'.part source key other = m.part source key other)
    (hpart : Doubled p (m.part source key device) (m'.part source key device)) :
    Doubled p (m.raw source key) (m'.raw source key) := by
  rw [raw_eq, raw_eq, hnames]
  obtain ⟨front, back, hsplit⟩ := List.append_of_mem hdevice
  have hnodup := m.devices.nodup_names
  rw [hsplit, List.nodup_append, List.nodup_cons] at hnodup
  obtain ⟨-, ⟨hback, -⟩, happart⟩ := hnodup
  have hsame : ∀ names : List String, device ∉ names →
      names.flatMap (m'.part source key) = names.flatMap (m.part source key) := by
    intro names hnotin
    exact List.flatMap_congr fun other hother => hothers other fun heq => hnotin (heq ▸ hother)
  have hfront : device ∉ front := fun hmem => happart device hmem device List.mem_cons_self rfl
  rw [hsplit, List.flatMap_append, List.flatMap_append, List.flatMap_cons, List.flatMap_cons,
    hsame front hfront, hsame back hback]
  exact ((hpart.append_right _).append_left _).inOrder

theorem names_again (before after : List Measurement) (w : Measurement) :
    (receiveAll .empty (before ++ w :: w :: after) : Memory).devices.names =
      (receiveAll .empty (before ++ w :: after) : Memory).devices.names := by
  refine Named.names_eq fun name => ?_
  rw [mem_names_receiveAll, mem_names_receiveAll]
  have hmem : ∀ u, u ∈ before ++ w :: w :: after ↔ u ∈ before ++ w :: after := by simp
  simp only [hmem]

theorem reads_again (before after : List Measurement) (w : Measurement) (source : Source)
    (device : String) :
    (receiveAll .empty (before ++ w :: w :: after) : Memory).Reads source device ↔
      (receiveAll .empty (before ++ w :: after) : Memory).Reads source device := by
  cases source with
  | device wanted => exact Iff.rfl
  | group group => rw [Reads, Reads, groupsOf_receiveAll, groupsOf_receiveAll, latestGroups_again]

/-- Where a measurement has no points its second copy has none either. -/
theorem part_again_eq (h : written [w] device key = []) (source : Source) :
    (receiveAll .empty (before ++ w :: w :: after) : Memory).part source key device =
      (receiveAll .empty (before ++ w :: after) : Memory).part source key device := by
  have hpoints : (receiveAll .empty (before ++ w :: w :: after) : Memory).points device key =
      (receiveAll .empty (before ++ w :: after) : Memory).points device key := by
    rw [points_receiveAll, points_receiveAll, written_again_eq h]
  rw [part, part, hpoints]
  exact if_congr (reads_again before after w source device) rfl rfl

theorem doubled_part (hv : w.values.get? key = some v)
    (hreads : (receiveAll .empty (before ++ w :: after) : Memory).Reads source w.device)
    (hroom : (written (before ++ w :: w :: after) w.device key).length ≤ capacity) :
    Doubled ⟨w.time, v⟩ ((receiveAll .empty (before ++ w :: after) : Memory).part source key w.device)
      ((receiveAll .empty (before ++ w :: w :: after) : Memory).part source key w.device) := by
  have hwritten : Doubled ⟨w.time, v⟩ (written (before ++ w :: after) w.device key)
      (written (before ++ w :: w :: after) w.device key) := doubled_written hv
  have hfewer : (written (before ++ w :: after) w.device key).length ≤ capacity := by
    obtain ⟨front, back, honce, htwice⟩ := hwritten
    rw [htwice] at hroom
    rw [honce]
    simp only [List.length_append, List.length_cons] at hroom ⊢
    omega
  rw [part, part, if_pos hreads, if_pos ((reads_again before after w source w.device).mpr hreads),
    points_receiveAll, points_receiveAll,
    Query.lastOf_of_le ((perm_inOrder _).length_eq.trans_le hfewer),
    Query.lastOf_of_le ((perm_inOrder _).length_eq.trans_le hroom)]
  exact hwritten.inOrder

theorem mem_names_again (before after : List Measurement) (w : Measurement) :
    w.device ∈ (receiveAll .empty (before ++ w :: after) : Memory).devices.names :=
  (mem_names_receiveAll _ _).mpr (.inr ⟨w, by simp, rfl⟩)

theorem raw_again_eq (h : w.values.get? key = none ∨
      ¬ (receiveAll .empty (before ++ w :: after) : Memory).Reads source w.device) :
    (receiveAll .empty (before ++ w :: w :: after) : Memory).raw source key =
      (receiveAll .empty (before ++ w :: after) : Memory).raw source key := by
  refine raw_congr (names_again before after w) fun device => ?_
  by_cases hdevice : w.device = device
  · subst hdevice
    rcases h with hnone | hreads
    · exact part_again_eq (by rw [written_eq_toList, hnone]; rfl) source
    · rw [part, part, if_neg hreads, if_neg ((reads_again before after w source w.device).not.mpr hreads)]
  · exact part_again_eq (written_of_ne hdevice key) source

theorem doubled_raw_again (hv : w.values.get? key = some v)
    (hreads : (receiveAll .empty (before ++ w :: after) : Memory).Reads source w.device)
    (hroom : (written (before ++ w :: w :: after) w.device key).length ≤ capacity) :
    Doubled ⟨w.time, v⟩ ((receiveAll .empty (before ++ w :: after) : Memory).raw source key)
      ((receiveAll .empty (before ++ w :: w :: after) : Memory).raw source key) :=
  doubled_raw (names_again before after w) (mem_names_again before after w)
    (fun _ hne => part_again_eq (written_of_ne hne.symm key) source) (doubled_part hv hreads hroom)

end Memory

/-- What it means that a measurement is written twice, one time right after the other, whatever is
written before and after. Tables are the same. Memory is the same but for the points of the measurement,
which are there twice as long as there is room for them; so an answer is the same when each filter looks
for other names, at other devices or in another range, or does not count how often a value is there. -/
theorem repeated_measurement (before after : List Measurement) (w : Measurement) :
    (∀ t : Tables, receiveAll t (before ++ w :: w :: after) = receiveAll t (before ++ w :: after)) ∧
    let m : Memory := receiveAll .empty (before ++ w :: after)
    let m' : Memory := receiveAll .empty (before ++ w :: w :: after)
    (∀ source key, w.values.get? key = none ∨ ¬ m.Reads source w.device →
      m'.raw source key = m.raw source key) ∧
    (∀ source key v, w.values.get? key = some v → m.Reads source w.device →
      (Memory.written (before ++ w :: w :: after) w.device key).length ≤ Memory.capacity →
        Doubled ⟨w.time, v⟩ (m.raw source key) (m'.raw source key)) ∧
    ∀ q : Query,
      (∀ f ∈ q.filters, ∀ v, w.values.get? f.key = some v → m.Reads q.source w.device →
        (Memory.written (before ++ w :: w :: after) w.device f.key).length ≤ Memory.capacity ∧
          q.Overlooks ⟨w.time, v⟩ f) →
      m'.query q = m.query q := by
  refine ⟨fun t => t.receiveAll_again before after w, ?_⟩
  intro m m'
  refine ⟨fun _ _ h => Memory.raw_again_eq h,
    fun _ _ _ hv hreads hroom => Memory.doubled_raw_again hv hreads hroom, ?_⟩
  intro q hfilters
  refine mapM_congr fun f hf => congrArg (Except.mapError _) ?_
  cases hv : w.values.get? f.key with
  | none => rw [Memory.raw_again_eq (.inl hv)]
  | some v =>
    by_cases hreads : m.Reads q.source w.device
    · obtain ⟨hroom, hoverlooks⟩ := hfilters f hf v hv hreads
      exact Query.answer_doubled hoverlooks (Memory.doubled_raw_again hv hreads hroom)
        (m.sorted_raw _ _) (m'.sorted_raw _ _)
    · rw [Memory.raw_again_eq (.inr hreads)]

/-- A value that arrives twice, between others: the last and the largest stay, and tables stay whole. -/
theorem repeated_measurement_late :
    let at_ (second : Nat) : Instant := (Instant.ofNanos? (second * 1000000000)).getD .epoch
    let values (v : Float) : Named Float := .ofList [("t", v)]
    let w : Measurement := ⟨"d1", ["g"], values 1, at_ 1700000040⟩
    let after : List Measurement := [⟨"d2", ["g"], values 3, at_ 1700000030⟩]
    let q : Query :=
      { source := .group "g", filters := [⟨"last", none, "t", none⟩, ⟨"max", none, "t", none⟩],
        start := at_ 1700000000, stop := at_ 1700000099, interval := .ofSeconds 60, limit := 10,
        retention := "raw" }
    let m : Memory := receiveAll .empty (w :: after)
    let m' : Memory := receiveAll .empty (w :: w :: after)
    receiveAll Tables.empty (w :: w :: after) = receiveAll Tables.empty (w :: after) ∧
      Doubled ⟨at_ 1700000040, 1⟩ (m.raw q.source "t") (m'.raw q.source "t") ∧
      m'.raw (.device "d2") "t" = m.raw (.device "d2") "t" ∧ m'.query q = m.query q := by
  intro at_ values w after q m m'
  obtain ⟨htables, hothers, hdoubled, hquery⟩ := repeated_measurement [] after w
  have hreads : m.Reads q.source w.device := by decide
  have hroom : (Memory.written ([] ++ w :: w :: after) w.device "t").length ≤ Memory.capacity := by decide
  refine ⟨htables .empty, hdoubled q.source "t" 1 rfl hreads hroom,
    hothers (.device "d2") "t" (.inr (by decide)), hquery q ?_⟩
  intro f hf v _ _
  rcases List.mem_pair.mp hf with rfl | rfl
  · refine ⟨hroom, .inr ?_⟩
    rintro selector ⟨⟩
    rfl
  · refine ⟨hroom, .inr ?_⟩
    rintro selector ⟨⟩
    rfl

open Query (second)

/-- In memory the sum of one value is twice as large when the value arrives twice. -/
theorem repeated_measurement_summed :
    (receiveAll .empty [single] : Memory).query minuteSum = .ok [[⟨second 1700000040, 1⟩]] ∧
      (receiveAll .empty [single, single] : Memory).query minuteSum =
        .ok [[⟨second 1700000040, 2⟩]] ∧
      (receiveAll .empty [single, single] : Memory).query minuteSum ≠
        (receiveAll .empty [single] : Memory).query minuteSum := by
  have honce : (receiveAll .empty [single] : Memory).raw (.group "g") "t" = [singlePoint] := by
    rw [Memory.raw_eq, inOrder_of_pairwise]
    · rfl
    · decide
  have htwice : (receiveAll .empty [single, single] : Memory).raw (.group "g") "t" = [singlePoint, singlePoint] := by
    rw [Memory.raw_eq, inOrder_of_pairwise]
    · rfl
    · decide
  have htwo : minuteSum.answer ⟨"sum", none, "t", none⟩ [singlePoint, singlePoint] =
      .ok [⟨second 1700000040, 2⟩] := by
    show Except.ok (Query.lastOf 10 (minuteSum.grouped .sum ⟨"sum", none, "t", none⟩ _)) = _
    rw [Query.grouped, Bucket.ofPoints_of_pairwise (by decide)]
    rfl
  have hqueried : (receiveAll .empty [single] : Memory).query minuteSum = .ok [[singlePoint]] :=
    Memory.query_minuteSum honce answer_minuteSum_single
  have hrepeated : (receiveAll .empty [single, single] : Memory).query minuteSum =
      .ok [[⟨second 1700000040, 2⟩]] := Memory.query_minuteSum htwice htwo
  refine ⟨hqueried, hrepeated, ?_⟩
  rw [hqueried, hrepeated]
  intro heq
  have hvalues : (2 : Float) = 1 := by
    injection heq with heq
    injection heq with heq
    injection heq with heq
    exact congrArg Point.value heq
  exact absurd hvalues (by decide)

end Vigil

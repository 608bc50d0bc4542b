import Vigil.Proofs.Condition.Reading

/-!
# Tokens of a rewritten condition

A mark ends the name or the number before it, and the only other way in which tokens reach across a
border, a mark of two characters, does not reach into a name. So the tokens of a text of pieces and
marks with a name behind it are the tokens of that text, and then those of the rest.
-/

namespace Vigil.Condition

open Vigil.Expression
open Vigil.Text (isBlank isName isAsciiDigit)

/-- Read on its own, the first text gives the tokens that it gives before the second. -/
def Splits (position : Nat) (first second : List Char) : Prop :=
  lexemesFrom position (first ++ second) = do
    let earlier ← lexemesFrom position first
    let later ← lexemesFrom (position + byteLength first) second
    return earlier ++ later

theorem splits_nil (position : Nat) (second : List Char) : Splits position [] second := by
  unfold Splits
  rw [lexemesFrom_nil, List.nil_append]
  show _ = (lexemesFrom position second >>= fun later => .ok later)
  cases lexemesFrom position second <;> rfl

section Splits

variable {position extra : Nat} {c : Char} {first second : List Char} {found : Token}

/-- A token of the first text leaves what follows it to be read. -/
theorem splits_token (hblank : isBlank c = false)
    (hfirst : token position c first = .ok (found, extra))
    (hboth : token position c (first ++ second) = .ok (found, extra))
    (hextra : extra ≤ first.length)
    (hrest : Splits (position + byteLength (c :: first.take extra)) (first.drop extra) second) :
    Splits position (c :: first) second := by
  have hlength : position + byteLength (c :: first.take extra) + byteLength (first.drop extra) =
      position + byteLength (c :: first) := by
    rw [Nat.add_assoc, ← byteLength_append, List.cons_append, List.take_append_drop]
  unfold Splits at hrest ⊢
  rw [List.cons_append, lexemesFrom_token hblank hboth, lexemesFrom_token hblank hfirst,
    List.take_append_of_le_length hextra, List.drop_append_of_le_length hextra, hrest, hlength]
  cases lexemesFrom (position + byteLength (c :: first.take extra)) (first.drop extra) with
  | error cause => rfl
  | ok earlier => cases lexemesFrom (position + byteLength (c :: first)) second <;> rfl

theorem splits_error {cause : SyntaxError} (hblank : isBlank c = false)
    (hfirst : token position c first = .error cause)
    (hboth : token position c (first ++ second) = .error cause) :
    Splits position (c :: first) second := by
  unfold Splits
  rw [List.cons_append, lexemesFrom_error hblank hboth, lexemesFrom_error hblank hfirst]
  rfl

end Splits

section Marks

variable {c d : Char}

/-- A character that neither begins nor continues a name or a number, and is no blank. -/
structure Separates (c : Char) : Prop where
  blank : isBlank c = false
  number : startsNumber c = false
  name : startsName c = false
  continues : continuesName c = false
  plain : isPlain c = false

theorem separates_of_mark (h : isOperatorChar c = true) : Separates c := by
  rcases mark_cases h with rfl | rfl | rfl | rfl | rfl | rfl | rfl | rfl | rfl | rfl | rfl <;>
    constructor <;> decide

/-- A number that ends in a digit or the point ends before a mark. -/
theorem continuesNumber_of_mark {previous : Char} (hc : isOperatorChar c = true)
    (hprevious : isAsciiDigit previous = true ∨ previous = '.') :
    continuesNumber previous c = false := by
  have hletter : (previous == 'e' || previous == 'E') = false := by
    rw [Bool.or_eq_false_iff, beq_eq_false_iff_ne, beq_eq_false_iff_ne]
    constructor <;> rintro rfl <;> rcases hprevious with h | h <;> exact absurd h (by decide)
  have hplain := (separates_of_mark hc).plain
  unfold isPlain at hplain
  unfold continuesNumber
  rw [hplain, hletter, Bool.and_false, Bool.false_or]

theorem token_mark (h : isOperatorChar c = true) (position : Nat) (rest : List Char) :
    token position c rest = match mark? c rest.head? with
      | some found => .ok found
      | none => .error (.unexpectedCharacter c position) :=
  token_of_other (separates_of_mark h).number (separates_of_mark h).name position rest

/-- A mark takes one more mark at most. -/
theorem extra_of_mark? {next : Option Char} {found : Token} {extra : Nat}
    (h : mark? c next = some (found, extra)) :
    extra = 0 ∨ (extra = 1 ∧ ∃ d, next = some d ∧ isOperatorChar d = true) := by
  rw [mark?.eq_def] at h
  split at h <;> cases h
  all_goals first
    | exact .inl rfl
    | exact .inr ⟨rfl, _, rfl, by decide⟩

/-- A mark takes nothing that is not a mark. -/
theorem mark?_of_not_mark (hc : isOperatorChar c = true) (hd : isOperatorChar d = false) :
    mark? c (some d) = mark? c none := by
  have hequal : d ≠ '=' := by rintro rfl; exact absurd hd (by decide)
  have hand : d ≠ '&' := by rintro rfl; exact absurd hd (by decide)
  have hor : d ≠ '|' := by rintro rfl; exact absurd hd (by decide)
  rcases mark_cases hc with rfl | rfl | rfl | rfl | rfl | rfl | rfl | rfl | rfl | rfl | rfl <;>
    simp [mark?, hequal, hand, hor]

end Marks

/-- A text that is one and the same token before every mark and at the end. -/
def OneToken (cs : List Char) : Prop :=
  ∃ c word found, cs = c :: word ∧ isBlank c = false ∧ isOperatorChar c = false ∧
    ∀ position rest, (∀ d ∈ rest.head?, isOperatorChar d = true) →
      token position c (word ++ rest) = .ok (found, word.length)

theorem range_of_wordChar {c : Char} (h : Text.isAsciiWordChar c = true) : '0' ≤ c ∧ c ≤ 'z' := by
  unfold Text.isAsciiWordChar Text.isAsciiLetter Text.isAsciiDigit at h
  simp only [Bool.or_eq_true, Bool.and_eq_true, decide_eq_true_eq, beq_iff_eq] at h
  rcases h with ((⟨hlow, hhigh⟩ | ⟨hlow, hhigh⟩) | ⟨hlow, hhigh⟩) | rfl
  · exact ⟨Char.le_trans (by decide) hlow, hhigh⟩
  · exact ⟨Char.le_trans (by decide) hlow, Char.le_trans hhigh (by decide)⟩
  · exact ⟨hlow, Char.le_trans hhigh (by decide)⟩
  · decide

/-- A character of a name is no blank and no mark, and continues a name. -/
theorem wordChar_facts {c : Char} (h : Text.isAsciiWordChar c = true) :
    isBlank c = false ∧ isOperatorChar c = false ∧ continuesName c = true := by
  refine ⟨?_, ?_, ?_⟩
  · obtain ⟨hlow, hhigh⟩ := range_of_wordChar h
    have hlow : 48 ≤ c.toNat := hlow
    have hhigh : c.toNat ≤ 122 := hhigh
    unfold isBlank
    simp only [Bool.or_eq_false_iff, Bool.and_eq_false_iff, decide_eq_false_iff_not,
      beq_eq_false_iff_ne]
    omega
  · cases hmark : isOperatorChar c with
    | false => rfl
    | true =>
      rcases mark_cases hmark with
        rfl | rfl | rfl | rfl | rfl | rfl | rfl | rfl | rfl | rfl | rfl <;>
        exact absurd h (by decide)
  · unfold Text.isAsciiWordChar at h
    unfold continuesName Text.isAlphanumeric Text.isAlphabetic
    cases hletter : Text.isAsciiLetter c with
    | true => rw [Bool.true_or, Bool.true_or, Bool.true_or, Bool.true_or]
    | false =>
      rw [hletter, Bool.false_or] at h
      rcases Bool.or_eq_true_iff.mp h with h | h
      · rw [h, Bool.or_true, Bool.true_or, Bool.true_or]
      · rw [h, Bool.or_true]

theorem name_start {c : Char} (h : (Text.isAsciiLetter c || c == '_') = true) :
    startsNumber c = false ∧ startsName c = true := by
  constructor
  · unfold startsNumber
    rw [Bool.or_eq_false_iff, beq_eq_false_iff_ne]
    constructor
    · cases hdigit : isAsciiDigit c with
      | false => rfl
      | true => exact absurd h (Text.not_first_of_digit hdigit)
    · rintro rfl
      exact absurd h (by decide)
  · unfold startsName Text.isAlphabetic
    rw [Bool.or_assoc, Bool.or_comm _ (c == '_'), ← Bool.or_assoc, h, Bool.true_or]

theorem oneToken_name {cs : List Char} (h : isName cs = true) : OneToken cs := by
  obtain ⟨c, word, rfl, hfirst, hword⟩ := Text.exists_cons_of_isName h
  obtain ⟨hblank, hmark, -⟩ := wordChar_facts (Text.isAsciiWordChar_of_first hfirst)
  obtain ⟨hnumber, hname⟩ := name_start hfirst
  refine ⟨c, word, .name (String.ofList (c :: word)), rfl, hblank, hmark, ?_⟩
  intro position rest hrest
  apply token_name position hnumber hname
  · intro d hd
    exact (wordChar_facts (hword d hd)).2.2
  · intro d hd
    exact (separates_of_mark (hrest d hd)).continues

theorem not_mark_of_startsNumber {c : Char} (h : startsNumber c = true) :
    isOperatorChar c = false := by
  cases hmark : isOperatorChar c with
  | false => rfl
  | true =>
    rw [(separates_of_mark hmark).number] at h
    cases h

theorem not_blank_of_startsNumber {c : Char} (h : startsNumber c = true) : isBlank c = false := by
  rcases Bool.or_eq_true_iff.mp h with hdigit | hpoint
  · have hchar : Text.isAsciiWordChar c = true := by
      unfold Text.isAsciiWordChar
      rw [hdigit, Bool.or_true, Bool.true_or]
    exact (wordChar_facts hchar).1
  · rw [eq_of_beq hpoint]
    decide

/-- A numeral with a value is one token. -/
theorem token_numeral {c : Char} {word rest : List Char} {value : Float}
    (h : IsNumeral (c :: word)) (hread : Decimal.read? (String.ofList (c :: word)) = some value)
    (hrest : ∀ d ∈ rest.head?, isOperatorChar d = true) (position : Nat) :
    token position c (word ++ rest) = .ok (.number value, word.length) := by
  refine token_number position ?_ ?_ hread ?_
  · obtain ⟨d, ds, hcons, hd⟩ := h.exists_cons
    exact (List.cons.inj hcons).1 ▸ hd
  · exact fun d hd => h.isPlain_of_mem d (List.mem_cons_of_mem c hd)
  · intro d hd
    have hlast := h.startsNumber_getLast _ (List.getLast?_eq_some_getLast (List.cons_ne_nil c word))
    exact continuesNumber_of_mark (hrest d hd) ((Bool.or_eq_true_iff.mp hlast).imp id eq_of_beq)

theorem oneToken_literal (l : Literal) : OneToken l.text := by
  obtain ⟨c, word, hcs, hc⟩ := l.isNumeral.exists_cons
  obtain ⟨value, hread⟩ := l.exists_read
  refine ⟨c, word, .number value, hcs, not_blank_of_startsNumber hc, not_mark_of_startsNumber hc, ?_⟩
  rw [hcs] at hread
  exact fun position rest hrest => token_numeral (hcs ▸ l.isNumeral) hread hrest position

theorem image_cases (part : Part) : part.image = [] ∨ OneToken part.image := by
  cases part with
  | empty => exact .inl rfl
  | literal l => exact .inr (oneToken_literal l)
  | filter f written => exact .inr (oneToken_name written.isName_identifier)

/-- Words and marks in turn. -/
def segmentText (segments : List (List Char × Char)) : List Char :=
  segments.flatMap fun s => s.1 ++ [s.2]

section Segments

variable {rest : List Char} {segments : List (List Char × Char)}

/-- Where a mark follows a mark, no word stands between them. -/
theorem segmentText_eq_cons {mark : Char} (hsegments : ∀ s ∈ segments, s.1 = [] ∨ OneToken s.1)
    (hmark : isOperatorChar mark = true) (hhead : (segmentText segments).head? = some mark) :
    segmentText segments = mark :: segmentText segments.tail := by
  cases segments with
  | nil => cases hhead
  | cons segment more =>
    obtain ⟨word, next⟩ := segment
    rcases hsegments _ List.mem_cons_self with hempty | ⟨c, tail, found, hword, -, hc, -⟩
    · cases hempty
      cases hhead
      rfl
    · cases hword
      cases hhead
      rw [hc] at hmark
      cases hmark

/-- A mark is read in the same way whatever comes behind the text, and leaves one of its tails. -/
theorem splits_mark {mark : Char} (position : Nat) (hmark : isOperatorChar mark = true)
    (hrest : ∀ d ∈ rest.head?, isOperatorChar d = false)
    (hsegments : ∀ s ∈ segments, s.1 = [] ∨ OneToken s.1)
    (hnow : ∀ position, Splits position (segmentText segments) rest)
    (hlater : ∀ position, Splits position (segmentText segments.tail) rest) :
    Splits position (mark :: segmentText segments) rest := by
  have hblank := (separates_of_mark hmark).blank
  have hsame : mark? mark (segmentText segments ++ rest).head? =
      mark? mark (segmentText segments).head? := by
    cases segmentText segments with
    | cons d ds => rfl
    | nil =>
      cases rest with
      | nil => rfl
      | cons d ds => exact mark?_of_not_mark hmark (hrest d rfl)
  have hfirst := token_mark hmark position (segmentText segments)
  have hboth := token_mark hmark position (segmentText segments ++ rest)
  rw [hsame] at hboth
  cases hfound : mark? mark (segmentText segments).head? with
  | none =>
    rw [hfound] at hfirst hboth
    exact splits_error hblank hfirst hboth
  | some found =>
    obtain ⟨found, extra⟩ := found
    rw [hfound] at hfirst hboth
    rcases extra_of_mark? hfound with rfl | ⟨rfl, next, hnext, hmarknext⟩
    · exact splits_token hblank hfirst hboth (Nat.zero_le _) (hnow _)
    · have hcons := segmentText_eq_cons hsegments hmarknext hnext
      refine splits_token hblank hfirst hboth ?_ ?_
      · rw [hcons, List.length_cons]
        exact Nat.le_add_left 1 _
      · rw [hcons]
        exact hlater _

/-- A name behind words and marks is read on its own. -/
theorem splits_segments (position : Nat) (hrest : ∀ d ∈ rest.head?, isOperatorChar d = false)
    (hsegments : ∀ s ∈ segments, (s.1 = [] ∨ OneToken s.1) ∧ isOperatorChar s.2 = true) :
    Splits position (segmentText segments) rest := by
  -- a mark may take the next one, so the induction carries the segments behind the first as well
  have hboth : (∀ position, Splits position (segmentText segments) rest) ∧
      ∀ position, Splits position (segmentText segments.tail) rest := by
    induction segments with
    | nil =>
      exact ⟨fun position => splits_nil position rest, fun position => splits_nil position rest⟩
    | cons segment more ih =>
      have hmore := fun s hs => hsegments s (List.mem_cons_of_mem _ hs)
      obtain ⟨hnow, hlater⟩ := ih hmore
      refine ⟨?_, hnow⟩
      intro position
      obtain ⟨word, mark⟩ := segment
      obtain ⟨hword, hmark⟩ := hsegments _ List.mem_cons_self
      have htail := fun position => splits_mark position hmark hrest (fun s hs => (hmore s hs).1)
        hnow hlater
      rcases hword with hempty | ⟨c, tail, found, hcons, hblank, -, htoken⟩
      · cases hempty
        exact htail position
      · cases hcons
        have htext : segmentText ((c :: tail, mark) :: more) =
            c :: (tail ++ mark :: segmentText more) := by
          rw [segmentText, List.flatMap_cons, List.append_assoc, List.singleton_append,
            List.cons_append]
          rfl
        rw [htext]
        have hafter : ∀ after, ∀ d ∈ (mark :: after : List Char).head?,
            isOperatorChar d = true := by
          intro after d hd
          rw [← Option.some.inj hd]
          exact hmark
        refine splits_token hblank (htoken position _ (hafter _)) ?_ ?_ ?_
        · rw [List.append_assoc]
          exact htoken position _ (hafter _)
        · rw [List.length_append]
          exact Nat.le_add_right _ _
        · rw [List.drop_left' rfl]
          exact htail _
  exact hboth.1 position

end Segments

end Vigil.Condition

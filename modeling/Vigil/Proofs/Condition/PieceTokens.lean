import Vigil.Proofs.Condition.Brackets
import Vigil.Proofs.Expression.Variables

/-!
# Tokens of the pieces of an expression

A piece that is read as a number is a numeral or one of the words for infinity and the like. A numeral
between marks is one token and no variable; a label is one name, or the text has no tokens at all, for
not every word character may stand in a name. So the variables of a text are those of its pieces.
-/

namespace Vigil.Condition

open Vigil.Expression
open Vigil.Text (IsLabel isWordChar isAsciiLetter isAsciiDigit)

/-- A word that is read as a number, in upper or lower case. -/
def isFloatWord (cs : List Char) : Bool :=
  ["inf", "infinity", "nan"].contains (String.ofList (cs.map Char.toLower))

section Numbers

variable {cs : List Char}

theorem isAsciiLetter_of_toLower {c : Char} (h : isAsciiLetter c.toLower = true) :
    isAsciiLetter c = true := by
  unfold Char.toLower at h
  split at h
  · rename_i hupper
    refine Bool.or_eq_true_iff.mpr (.inr ?_)
    rw [Bool.and_eq_true, decide_eq_true_iff, decide_eq_true_iff]
    exact hupper
  · exact h

/-- Such a word is a label. -/
theorem isLabel_of_isFloatWord (h : isFloatWord cs = true) : IsLabel cs := by
  have hwords : ["inf", "infinity", "nan"].all (fun word => word.toList.all isAsciiLetter) = true := rfl
  have hletters := List.all_eq_true.mp hwords _ (List.contains_iff_mem.mp h)
  rw [String.toList_ofList, List.all_map] at hletters
  have hcs : ∀ c ∈ cs, isAsciiLetter c = true :=
    fun c hc => isAsciiLetter_of_toLower (List.all_eq_true.mp hletters c hc)
  cases cs with
  | nil => exact absurd h (by decide)
  | cons c cs =>
    refine ⟨c, cs, rfl, ?_, ?_⟩
    · rw [hcs c List.mem_cons_self, Bool.true_or]
    · intro d hd
      apply Text.isWordChar_of_first
      rw [hcs d (List.mem_cons_of_mem c hd), Bool.true_or]

theorem readSign_of_not_mem (hminus : '-' ∉ cs) (hplus : '+' ∉ cs) :
    Decimal.readSign cs = (false, cs) := by
  rw [Decimal.readSign]
  · rintro rest rfl
    exact hminus List.mem_cons_self
  · rintro rest rfl
    exact hplus List.mem_cons_self

/-- Without a sign a power of ten is its letter and digits. -/
theorem isPower_of_readExponent (hminus : '-' ∉ cs) (hplus : '+' ∉ cs) {e : Int}
    (h : Decimal.readExponent cs = some e) : cs = [] ∨ IsPower cs := by
  cases cs with
  | nil => exact .inl rfl
  | cons c rest =>
    rw [Decimal.readExponent, readSign_of_not_mem (fun hmem => hminus (List.mem_cons_of_mem c hmem))
      fun hmem => hplus (List.mem_cons_of_mem c hmem)] at h
    split at h
    · rename_i hletter
      dsimp only at h
      split at h
      · cases h
      · rename_i hdigits
        rw [Bool.or_eq_true, not_or, Bool.not_eq_true', Bool.not_eq_false, List.isEmpty_iff] at hdigits
        exact .inr ⟨c, rest, rfl, hletter, hdigits.1, List.all_eq_true.mp hdigits.2⟩
    · cases h

theorem readFraction_cases (cs : List Char) : ∃ point,
    cs = point ++ (Decimal.readFraction cs).2 ∧ (∀ c ∈ point, startsNumber c = true) ∧
      ((Decimal.readFraction cs).1 ≠ [] → point ≠ []) := by
  have hdigit : ∀ c, isAsciiDigit c = true → startsNumber c = true := by
    intro c hc
    unfold startsNumber
    rw [hc, Bool.true_or]
  unfold Decimal.readFraction
  split
  · rename_i rest
    refine ⟨'.' :: rest.takeWhile isAsciiDigit, ?_, ?_, fun _ => List.cons_ne_nil _ _⟩
    · rw [List.cons_append, List.takeWhile_append_dropWhile]
    · intro c hc
      rcases List.mem_cons.mp hc with rfl | hc
      · rfl
      · exact hdigit c (List.all_eq_true.mp List.all_takeWhile c hc)
  · exact ⟨[], rfl, fun c hc => absurd hc List.not_mem_nil, id⟩

/-- What is read as a number without being a word is a numeral. -/
theorem isNumeral_of_read? (hminus : '-' ∉ cs) (hplus : '+' ∉ cs) (hword : isFloatWord cs = false)
    {x : Float} (h : Decimal.read? (String.ofList cs) = some x) : IsNumeral cs := by
  have hne : ∀ word ∈ ["inf", "infinity", "nan"], cs.map Char.toLower ≠ word.toList := by
    intro word hmem heq
    apply ne_true_of_eq_false hword
    rw [isFloatWord, heq, String.ofList_toList]
    exact List.contains_iff_mem.mpr hmem
  rw [Decimal.read?, String.toList_ofList, readSign_of_not_mem hminus hplus] at h
  obtain ⟨y, hy, -⟩ := Option.map_eq_some_iff.mp h
  rw [Decimal.readUnsigned?, if_neg, if_neg (hne "nan" (by decide))] at hy
  · dsimp only at hy
    split at hy
    · cases hy
    · rename_i hdigits
      obtain ⟨e, he, -⟩ := Option.bind_eq_some_iff.mp hy
      obtain ⟨point, hpoint, hchars, hnot⟩ := readFraction_cases (cs.dropWhile isAsciiDigit)
      have hcs : cs = (cs.takeWhile isAsciiDigit ++ point) ++
          (Decimal.readFraction (cs.dropWhile isAsciiDigit)).2 := by
        rw [List.append_assoc, ← hpoint, List.takeWhile_append_dropWhile]
      refine ⟨_, _, hcs, ?_, ?_, ?_⟩
      · rw [Bool.and_eq_true, List.isEmpty_iff, List.isEmpty_iff, not_and_or] at hdigits
        rcases hdigits with hwhole | hfraction
        · exact List.append_ne_nil_of_left_ne_nil hwhole _
        · exact List.append_ne_nil_of_right_ne_nil _ (hnot hfraction)
      · intro c hc
        rcases List.mem_append.mp hc with hc | hc
        · unfold startsNumber
          rw [List.all_eq_true.mp List.all_takeWhile c hc, Bool.true_or]
        · exact hchars c hc
      · refine isPower_of_readExponent ?_ ?_ he
        · exact fun hmem => hminus (hcs ▸ List.mem_append_right _ hmem)
        · exact fun hmem => hplus (hcs ▸ List.mem_append_right _ hmem)
  · exact not_or.mpr ⟨hne "inf" (by decide), hne "infinity" (by decide)⟩

end Numbers

/-- A piece of an expression, and the variable that it is. -/
inductive Reads : List Char → Option String → Prop where
  | empty : Reads [] none
  | numeral {piece : List Char} {value : Float} (h : IsNumeral piece)
      (hread : Decimal.read? (String.ofList piece) = some value) : Reads piece none
  | label {piece : List Char} (h : IsLabel piece) (hyes : String.ofList piece ≠ "true")
      (hno : String.ofList piece ≠ "false") : Reads piece (some (String.ofList piece))

section Tokens

variable {position : Nat} {c : Char} {rest piece : List Char} {v : Option String} {ls : List Lexeme}

theorem asVariable_of_mark? {next : Option Char} {found : Token} {extra : Nat}
    (h : mark? c next = some (found, extra)) : found.asVariable = none := by
  rw [mark?.eq_def] at h
  split at h <;> cases h <;> rfl

/-- A word character that no name goes on through begins no token. -/
theorem token_of_stray (hword : isWordChar c = true) (hstray : continuesName c = false) :
    token position c rest = .error (.unexpectedCharacter c position) := by
  have hcontinues : ∀ d, continuesName d = true → c ≠ d := by
    rintro d hd rfl
    rw [hstray] at hd
    cases hd
  unfold continuesName Text.isAlphanumeric at hstray
  simp only [Bool.or_eq_false_iff] at hstray
  obtain ⟨⟨⟨halphabetic, hdigit⟩, -⟩, hline⟩ := hstray
  have hnumber : ¬ startsNumber c = true := by
    unfold startsNumber
    rw [hdigit, Bool.false_or, beq_iff_eq]
    rintro rfl
    exact absurd hword (by decide)
  have hname : ¬ startsName c = true := by
    unfold startsName
    rw [halphabetic, hline]
    exact Bool.false_ne_true
  rw [token, if_neg hnumber, if_neg hname, mark?_of_wordChar hword]

/-- A label that is read to its end is one name. -/
theorem exists_lexemes_of_label (hlabel : IsLabel piece)
    (hrest : ∀ d ∈ rest.head?, isOperatorChar d = true)
    (h : lexemesFrom position (piece ++ rest) = .ok ls) :
    ∃ q more, lexemesFrom q rest = .ok more ∧
      tokens ls = .name (String.ofList piece) :: tokens more := by
  obtain ⟨c, word, rfl, hfirst, hword⟩ := hlabel
  obtain ⟨hnumber, hname⟩ := name_start hfirst
  have hblank := not_blank_of_wordChar (Text.isWordChar_of_first hfirst)
  have hsplit : c :: word ++ rest =
      c :: word.takeWhile continuesName ++ (word.dropWhile continuesName ++ rest) := by
    rw [List.cons_append, List.cons_append, ← List.append_assoc, List.takeWhile_append_dropWhile]
  have hstop : ∀ d ∈ (word.dropWhile continuesName ++ rest).head?, continuesName d = false := by
    intro d hd
    cases hdrop : word.dropWhile continuesName with
    | nil =>
      rw [hdrop] at hd
      exact (separates_of_mark (hrest d hd)).continues
    | cons e drop =>
      rw [hdrop] at hd
      exact Text.head_dropWhile continuesName word d (hdrop ▸ hd)
  rw [hsplit, lexemesFrom_name position hblank hnumber hname
    (List.all_eq_true.mp List.all_takeWhile) hstop] at h
  obtain ⟨more, hmore, rfl⟩ := map_eq_ok_iff.mp h
  cases hdrop : word.dropWhile continuesName with
  | nil =>
    have hwhole : word.takeWhile continuesName = word := by
      have happend := List.takeWhile_append_dropWhile (p := continuesName) (l := word)
      rwa [hdrop, List.append_nil] at happend
    rw [hdrop] at hmore
    exact ⟨_, more, hmore, by rw [hwhole]; rfl⟩
  | cons d drop =>
    rw [hdrop] at hmore hstop
    have hd : isWordChar d = true :=
      hword d ((List.dropWhile_suffix continuesName).subset (hdrop ▸ List.mem_cons_self))
    rw [List.cons_append, lexemesFrom_error (not_blank_of_wordChar hd)
      (token_of_stray hd (hstop d rfl))] at hmore
    cases hmore

/-- A piece is read, before what really follows it, as the variable that it is. -/
theorem Reads.exists_lexemes (h : Reads piece v) (hrest : ∀ d ∈ rest.head?, isOperatorChar d = true)
    (hls : lexemesFrom position (piece ++ rest) = .ok ls) :
    ∃ q more, lexemesFrom q rest = .ok more ∧
      (tokens ls).filterMap Token.asVariable =
        v.toList ++ (tokens more).filterMap Token.asVariable := by
  cases h with
  | empty => exact ⟨position, ls, hls, rfl⟩
  | numeral h hread =>
    obtain ⟨c, word, rfl, hc⟩ := h.exists_cons
    rw [List.cons_append] at hls
    obtain ⟨found, extra, more, hfirst, hmore, rfl⟩ :=
      (lexemesFrom_cons_eq_ok_iff (not_blank_of_startsNumber hc)).mp hls
    rw [token_numeral h hread hrest] at hfirst
    cases hfirst
    rw [List.drop_left' rfl] at hmore
    exact ⟨_, more, hmore, List.filterMap_cons_none rfl⟩
  | label hlabel hyes hno =>
    obtain ⟨q, more, hmore, htokens⟩ := exists_lexemes_of_label hlabel hrest hls
    refine ⟨q, more, hmore, ?_⟩
    rw [htokens]
    exact List.filterMap_cons_some (if_neg (not_or.mpr ⟨hyes, hno⟩))

/-- A piece before a mark that begins the text is empty. -/
theorem Reads.eq_nil_of_mark (h : Reads piece v) (hc : isOperatorChar c = true)
    (hhead : (piece ++ rest).head? = some c) : piece = [] ∧ v = none := by
  cases h with
  | empty => exact ⟨rfl, rfl⟩
  | numeral h _ =>
    obtain ⟨d, word, rfl, hd⟩ := h.exists_cons
    cases hhead
    rw [not_mark_of_startsNumber hd] at hc
    cases hc
  | label h _ _ =>
    obtain ⟨d, word, rfl, hd, -⟩ := h
    cases hhead
    rw [not_mark_of_wordChar (Text.isWordChar_of_first hd)] at hc
    cases hc

/-- A mark takes one more mark at most, and is no variable. -/
theorem exists_lexemes_of_mark (hc : isOperatorChar c = true)
    (h : lexemesFrom position (c :: rest) = .ok ls) :
    ∃ q more, (tokens ls).filterMap Token.asVariable = (tokens more).filterMap Token.asVariable ∧
      (lexemesFrom q rest = .ok more ∨
        ∃ d after, rest = d :: after ∧ isOperatorChar d = true ∧ lexemesFrom q after = .ok more) := by
  obtain ⟨found, extra, more, hfirst, hmore, rfl⟩ :=
    (lexemesFrom_cons_eq_ok_iff (separates_of_mark hc).blank).mp h
  rw [token_mark hc] at hfirst
  split at hfirst
  · rename_i hmark
    cases hfirst
    refine ⟨position + byteLength (c :: rest.take extra), more,
      List.filterMap_cons_none (asVariable_of_mark? hmark), ?_⟩
    rcases extra_of_mark? hmark with rfl | ⟨rfl, d, hhead, hd⟩
    · exact .inl hmore
    · cases rest with
      | nil => cases hhead
      | cons e after =>
        cases hhead
        exact .inr ⟨d, after, rfl, hd, hmore⟩
  · cases hfirst

end Tokens

section Weave

variable {pieces : List (List Char)} {vs : List (Option String)} {marks : List Char}

/-- The variables among the tokens of the text are those of its pieces. -/
def Told (pieces : List (List Char)) (vs : List (Option String)) (marks : List Char) : Prop :=
  ∀ position ls, lexemesFrom position (weave pieces marks) = .ok ls →
    (tokens ls).filterMap Token.asVariable = vs.filterMap id

theorem told_nil (marks : List Char) : Told [] [] marks := by
  intro position ls hls
  cases hls.symm.trans (lexemesFrom_nil position)
  rfl

theorem told_singleton {piece : List Char} {v : Option String} (h : Reads piece v)
    (marks : List Char) : Told [piece] [v] marks := by
  intro position ls hls
  rw [weave_singleton, ← List.append_nil piece] at hls
  obtain ⟨q, rest, hrest, hvariables⟩ := h.exists_lexemes (by rintro d ⟨⟩) hls
  cases hrest.symm.trans (lexemesFrom_nil q)
  rw [hvariables]
  cases v <;> rfl

theorem trail_eq_cons {d : Char} {after : List Char} (h : trail marks pieces = d :: after) :
    after = weave pieces marks.tail := by
  cases marks with
  | nil => cases h
  | cons mark marks =>
    cases pieces with
    | nil => cases h
    | cons piece more => exact (List.cons.inj h).2.symm

/-- A mark may take the next one, with the empty piece between them. -/
theorem told_cons {piece second : List Char} {v v' : Option String} {mark : Char}
    (hpiece : Reads piece v) (hmark : isOperatorChar mark = true) (hsecond : Reads second v')
    (hnow : Told (second :: pieces) (v' :: vs) marks) (hlater : Told pieces vs marks.tail) :
    Told (piece :: second :: pieces) (v :: v' :: vs) (mark :: marks) := by
  intro position ls hls
  rw [weave_cons_cons] at hls
  obtain ⟨q, ls', hls', hvariables⟩ := hpiece.exists_lexemes (by rintro d ⟨⟩; exact hmark) hls
  obtain ⟨q', rest, hsame, hafter⟩ := exists_lexemes_of_mark hmark hls'
  have hrest : (tokens rest).filterMap Token.asVariable = (v' :: vs).filterMap id := by
    rcases hafter with hrest | ⟨d, after, hcons, hd, hrest⟩
    · exact hnow q' rest hrest
    · have hhead : (second ++ trail marks pieces).head? = some d := by
        rw [← weave, hcons]
        rfl
      obtain ⟨rfl, rfl⟩ := hsecond.eq_nil_of_mark hd hhead
      rw [List.filterMap_cons_none rfl]
      rw [trail_eq_cons hcons] at hrest
      exact hlater q' rest hrest
  rw [hvariables, hsame, hrest]
  cases v <;> rfl

theorem told_of_reads (h : List.Forall₂ Reads pieces vs) (hmarks : ∀ c ∈ marks, isOperatorChar c = true)
    (hlength : pieces.length ≤ marks.length + 1) : Told pieces vs marks := by
  -- a mark may take the next one, so the induction carries the pieces behind the first as well
  have hboth : Told pieces vs marks ∧ Told pieces.tail vs.tail marks.tail := by
    induction h generalizing marks with
    | nil => exact ⟨told_nil marks, told_nil marks.tail⟩
    | @cons piece v more vs hpiece hmore ih =>
      rw [List.length_cons] at hlength
      have htail : Told more vs marks.tail := by
        refine (ih (fun c hc => hmarks c (List.mem_of_mem_tail hc)) ?_).1
        rw [List.length_tail]
        omega
      refine ⟨?_, htail⟩
      cases hmore with
      | nil => exact told_singleton hpiece marks
      | cons hsecond _ =>
        cases marks with
        | nil => exact absurd hlength (by simp)
        | cons mark marks =>
          simp only [List.length_cons] at hlength
          obtain ⟨hnow, hlater⟩ := ih (fun c hc => hmarks c (List.mem_cons_of_mem mark hc))
            (by simp only [List.length_cons]; omega)
          exact told_cons hpiece (hmarks mark List.mem_cons_self) hsecond hnow hlater
  exact hboth.1

end Weave

end Vigil.Condition

import Vigil.Proofs.Expression.Lexing

/-!
# The words of a text

Every token has a word of its own in the text, and between the words stand blanks only. Of what follows
a word nothing matters but that it does not run on, so a word is the same token where the text ends with
it. Hence whatever stands before a place where cutting stops can be cut.
-/

namespace Vigil.Expression

open Vigil.Text (isBlank isBlankText)

section Token

variable {position extra : Nat} {c previous : Char} {rest front back : List Char} {found : Token}
  {next : Option Char} {cause : SyntaxError}

theorem numberTail_le_length (previous : Char) (cs : List Char) :
    numberTail previous cs ≤ cs.length := by
  induction cs generalizing previous with
  | nil => exact Nat.le_refl 0
  | cons c rest ih =>
    rw [numberTail]
    split
    · exact Nat.succ_le_succ (ih c)
    · exact Nat.zero_le _

theorem nameTail_le_length (cs : List Char) : nameTail cs ≤ cs.length := by
  induction cs with
  | nil => exact Nat.le_refl 0
  | cons c rest ih =>
    rw [nameTail]
    split
    · exact Nat.succ_le_succ ih
    · exact Nat.zero_le _

/-- A number that ends in the front runs as far without the back. -/
theorem numberTail_front (h : numberTail previous (front ++ back) ≤ front.length) :
    numberTail previous front = numberTail previous (front ++ back) := by
  induction front generalizing previous with
  | nil => exact (Nat.le_zero.mp h).symm
  | cons c front ih =>
    rw [List.cons_append, numberTail] at h ⊢
    rw [numberTail]
    by_cases hc : continuesNumber previous c = true
    · rw [if_pos hc] at h
      rw [if_pos hc, if_pos hc, ih (Nat.le_of_succ_le_succ h)]
    · rw [if_neg hc, if_neg hc]

theorem numberTail_take (previous : Char) (cs : List Char) :
    numberTail previous (cs.take (numberTail previous cs)) = numberTail previous cs := by
  have hlength := List.length_take_of_le (numberTail_le_length previous cs)
  have hsplit := List.take_append_drop (numberTail previous cs) cs
  generalize cs.take (numberTail previous cs) = front at hlength hsplit
  generalize cs.drop (numberTail previous cs) = back at hsplit
  subst hsplit
  exact numberTail_front (Nat.le_of_eq hlength.symm)

/-- A name that ends in the front runs as far without the back. -/
theorem nameTail_front (h : nameTail (front ++ back) ≤ front.length) :
    nameTail front = nameTail (front ++ back) := by
  induction front with
  | nil => exact (Nat.le_zero.mp h).symm
  | cons c front ih =>
    rw [List.cons_append, nameTail] at h ⊢
    rw [nameTail]
    by_cases hc : continuesName c = true
    · rw [if_pos hc] at h
      rw [if_pos hc, if_pos hc, ih (Nat.le_of_succ_le_succ h)]
    · rw [if_neg hc, if_neg hc]

theorem mark?_none_of_single (h : mark? c next = some (found, 0)) : mark? c none = some (found, 0) := by
  rw [mark?.eq_def] at h
  split at h <;> cases h <;> rfl

theorem mark?_none_of_none (h : mark? c next = none) : mark? c none = none := by
  rw [mark?.eq_def] at h
  split at h <;> cases h
  -- the character begins no mark of one character, and the other marks have a second one
  rw [mark?.eq_def]
  split <;> simp_all

/-- A mark takes a second character only if there is one. -/
theorem mark?_le (h : mark? c next = some (found, extra)) : extra ≤ next.toList.length := by
  rw [mark?.eq_def] at h
  split at h <;> cases h <;> simp

/-- A mark that ends in the front is the same mark without the back. -/
theorem mark?_front (h : mark? c (front ++ back).head? = some (found, extra))
    (hextra : extra ≤ front.length) : mark? c front.head? = some (found, extra) := by
  cases front with
  | nil =>
    obtain rfl := Nat.le_zero.mp hextra
    exact mark?_none_of_single h
  | cons d front => exact h

/-- How a token is found: as a number that can be read, as a name or as a mark. -/
theorem token_cases (h : token position c rest = .ok (found, extra)) :
    (startsNumber c = true ∧ extra = numberTail c rest ∧ ∃ value,
      Decimal.read? (String.ofList (c :: rest.take extra)) = some value ∧ found = .number value) ∨
    (startsNumber c = false ∧ startsName c = true ∧ extra = nameTail rest ∧
      found = .name (String.ofList (c :: rest.take extra))) ∨
    (startsNumber c = false ∧ startsName c = false ∧ mark? c rest.head? = some (found, extra)) := by
  cases hnumber : startsNumber c with
  | true =>
    rw [token_of_startsNumber hnumber] at h
    split at h
    · rename_i value hread
      cases h
      exact .inl ⟨rfl, rfl, value, hread, rfl⟩
    · cases h
  | false =>
    cases hname : startsName c with
    | true =>
      rw [token_of_startsName hnumber hname] at h
      cases h
      exact .inr (.inl ⟨rfl, rfl, rfl, rfl⟩)
    | false =>
      rw [token_of_other hnumber hname] at h
      split at h
      · rename_i hmark
        cases h
        exact .inr (.inr ⟨rfl, rfl, hmark⟩)
      · cases h

theorem token_le_length (h : token position c rest = .ok (found, extra)) : extra ≤ rest.length := by
  obtain ⟨-, rfl, -⟩ | ⟨-, -, rfl, -⟩ | ⟨-, -, hmark⟩ := token_cases h
  · exact numberTail_le_length c rest
  · exact nameTail_le_length rest
  · have hhead : rest.head?.toList.length ≤ rest.length := by cases rest <;> simp
    exact Nat.le_trans (mark?_le hmark) hhead

/-- The texts of a token: the name itself, a mark as it is shown, `=` for equality too, and for a number
whatever reads as it. -/
def Token.IsSpelt : Token → String → Prop
  | .number value, word => Decimal.read? word = some value
  | .name text, word => word = text
  | .equal, word => word = "==" ∨ word = "="
  | mark, word => word = mark.text

theorem isSpelt_of_mark? (h : mark? c next = some (found, extra)) :
    found.IsSpelt (String.ofList (c :: next.toList.take extra)) := by
  rw [mark?.eq_def] at h
  split at h <;> cases h <;> simp [Token.IsSpelt, Token.text]

theorem take_head?_toList (h : extra ≤ rest.head?.toList.length) :
    rest.head?.toList.take extra = rest.take extra := by
  cases rest with
  | nil => rfl
  | cons d rest =>
    obtain rfl | rfl := Nat.le_one_iff_eq_zero_or_eq_one.mp h <;> rfl

theorem isSpelt_of_token (h : token position c rest = .ok (found, extra)) :
    found.IsSpelt (String.ofList (c :: rest.take extra)) := by
  obtain ⟨-, -, value, hread, rfl⟩ | ⟨-, -, -, rfl⟩ | ⟨-, -, hmark⟩ := token_cases h
  · exact hread
  · rfl
  · have hword := isSpelt_of_mark? hmark
    rwa [take_head?_toList (mark?_le hmark)] at hword

/-- A token that ends in the front is the same token without the back, and wherever it stands. -/
theorem token_front (h : token position c (front ++ back) = .ok (found, extra))
    (hextra : extra ≤ front.length) (other : Nat) : token other c front = .ok (found, extra) := by
  have htake : (front ++ back).take extra = front.take extra := List.take_append_of_le_length hextra
  obtain ⟨hnumber, rfl, value, hread, rfl⟩ | ⟨hnumber, hname, rfl, rfl⟩ | ⟨hnumber, hname, hmark⟩ :=
    token_cases h
  · rw [htake, ← numberTail_front hextra] at hread
    rw [token_of_startsNumber hnumber, hread, numberTail_front hextra]
  · rw [htake, token_of_startsName hnumber hname, nameTail_front hextra]
  · rw [token_of_other hnumber hname, mark?_front hmark hextra]

/-- Where no token is found, either the character begins none, or a number begins there that cannot be
read; both stand for themselves. -/
theorem token_error_cases (h : token position c rest = .error cause) :
    (cause = .unexpectedCharacter c position ∧
      ∀ other, token other c [] = .error (.unexpectedCharacter c other)) ∨
    ∃ word back, rest = word ++ back ∧ cause = .invalidNumber (String.ofList (c :: word)) ∧
      ∀ other, token other c word = .error cause := by
  cases hnumber : startsNumber c with
  | true =>
    rw [token_of_startsNumber hnumber] at h
    split at h
    · cases h
    · rename_i hread
      cases h
      refine .inr ⟨_, _, (List.take_append_drop _ rest).symm, rfl, fun other => ?_⟩
      rw [token_of_startsNumber hnumber, numberTail_take, List.take_take, Nat.min_self, hread]
  | false =>
    cases hname : startsName c with
    | true =>
      rw [token_of_startsName hnumber hname] at h
      cases h
    | false =>
      rw [token_of_other hnumber hname] at h
      split at h
      · cases h
      · rename_i hmark
        cases h
        refine .inl ⟨rfl, fun other => ?_⟩
        rw [token_of_other hnumber hname, List.head?_nil, mark?_none_of_none hmark]

end Token

/-- The characters of a token, and the blanks that follow them. -/
structure Piece where
  word : String
  gap : String

def Piece.joined (pieces : List Piece) : String :=
  String.join (pieces.map fun piece => piece.word ++ piece.gap)

theorem Piece.joined_cons (piece : Piece) (pieces : List Piece) :
    joined (piece :: pieces) = piece.word ++ piece.gap ++ joined pieces := by
  rw [joined, List.map_cons, String.join_cons]
  rfl

theorem Piece.joined_append (pieces more : List Piece) :
    joined (pieces ++ more) = joined pieces ++ joined more := by
  rw [joined, List.map_append, String.join_append]
  rfl

/-- A text that is a token, and nothing else. -/
structure Token.IsWord (t : Token) (word : String) : Prop where
  ne : word ≠ ""
  spelt : t.IsSpelt word
  alone : lexemes word = .ok [⟨t, 0⟩]

/-- A text that begins at byte `origin` consists of blanks and of pieces, one for each lexeme. -/
structure Consists (origin : Nat) (text : String) (ls : List Lexeme) (front : String)
    (pieces : List Piece) : Prop where
  text_eq : text = front ++ Piece.joined pieces
  front_blank : isBlankText front = true
  gap_blank : ∀ piece ∈ pieces, isBlankText piece.gap = true
  words : List.Forall₂ (fun l piece => l.token.IsWord piece.word) ls pieces
  /-- Each lexeme stands where its word starts. -/
  position_eq : ∀ i l, ls[i]? = some l →
    l.position = origin + (front ++ Piece.joined (pieces.take i)).utf8ByteSize

theorem isWord_of_token {position extra : Nat} {c : Char} {rest : List Char} {found : Token}
    (hblank : isBlank c = false) (h : token position c rest = .ok (found, extra)) :
    found.IsWord (String.ofList (c :: rest.take extra)) := by
  refine ⟨fun hempty => ?_, isSpelt_of_token h, ?_⟩
  · have hchars := congrArg String.toList hempty
    rw [String.toList_ofList] at hchars
    cases hchars
  · have hlength : (rest.take extra).length = extra := List.length_take_of_le (token_le_length h)
    rw [← List.take_append_drop extra rest] at h
    have hword := token_front h (Nat.le_of_eq hlength.symm) 0
    rw [lexemes, String.toList_ofList]
    refine lexemesFrom_eq_ok hblank hword ?_
    rw [List.drop_of_length_le (Nat.le_of_eq hlength), lexemesFrom_nil]

theorem utf8ByteSize_ofList (cs : List Char) : (String.ofList cs).utf8ByteSize = byteLength cs := by
  induction cs with
  | nil => rfl
  | cons c cs ih =>
    rw [String.ofList_cons, String.utf8ByteSize_append, String.utf8ByteSize_singleton, ih, byteLength]

namespace Consists

variable {origin extra : Nat} {text front gap : String} {ls : List Lexeme} {pieces : List Piece}
  {c : Char} {rest : List Char} {found : Token}

theorem nothing (origin : Nat) : Consists origin "" [] "" [] where
  text_eq := rfl
  front_blank := rfl
  gap_blank _ h := absurd h List.not_mem_nil
  words := .nil
  position_eq _ _ h := by cases h

/-- A blank may stand in front. -/
theorem blank (hc : isBlank c = true) (h : Consists (origin + c.utf8Size) text ls front pieces) :
    Consists origin (String.singleton c ++ text) ls (String.singleton c ++ front) pieces where
  text_eq := by rw [h.text_eq, String.append_assoc]
  front_blank := by
    have hfront := h.front_blank
    rw [isBlankText] at hfront ⊢
    rw [String.toList_append, String.toList_singleton, List.singleton_append, List.all_cons, hc,
      hfront, Bool.and_self]
  gap_blank := h.gap_blank
  words := h.words
  position_eq i l hl := by
    rw [h.position_eq i l hl, String.append_assoc, String.utf8ByteSize_append (s := String.singleton c),
      String.utf8ByteSize_singleton, Nat.add_assoc]

/-- A token and the blanks behind it are one more piece. -/
theorem word (hblank : isBlank c = false) (htoken : token origin c rest = .ok (found, extra))
    (h : Consists (origin + byteLength (c :: rest.take extra)) text ls front pieces) :
    Consists origin (String.ofList (c :: rest.take extra) ++ text) (⟨found, origin⟩ :: ls) ""
      (⟨String.ofList (c :: rest.take extra), front⟩ :: pieces) where
  text_eq := by
    rw [h.text_eq, String.empty_append, Piece.joined_cons, String.append_assoc]
  front_blank := rfl
  gap_blank := List.forall_mem_cons.mpr ⟨h.front_blank, h.gap_blank⟩
  words := .cons (isWord_of_token hblank htoken) h.words
  position_eq i l hl := by
    cases i with
    | zero =>
      cases hl
      rfl
    | succ i =>
      rw [h.position_eq i l hl, List.take_succ_cons, String.empty_append, Piece.joined_cons]
      simp only [String.utf8ByteSize_append, utf8ByteSize_ofList, Nat.add_assoc]

/-- Every lexeme has its place in the text. -/
theorem exists_occurrence {l : Lexeme} (h : Consists origin text ls front pieces) (hl : l ∈ ls) :
    ∃ before word after : String, text = before ++ word ++ after ∧
      l.position = origin + before.utf8ByteSize ∧ l.token.IsWord word := by
  obtain ⟨i, hi, rfl⟩ := List.mem_iff_getElem.mp hl
  have hpiece : i < pieces.length := h.words.length_eq ▸ hi
  refine ⟨front ++ Piece.joined (pieces.take i), pieces[i].word,
    pieces[i].gap ++ Piece.joined (pieces.drop (i + 1)), ?_,
    h.position_eq i _ (List.getElem?_eq_getElem hi), h.words.get hi hpiece⟩
  have hsplit : pieces = pieces.take i ++ pieces[i] :: pieces.drop (i + 1) := by
    rw [← List.drop_eq_getElem_cons hpiece, List.take_append_drop]
  calc text = front ++ Piece.joined (pieces.take i ++ pieces[i] :: pieces.drop (i + 1)) := by
        rw [h.text_eq, ← hsplit]
    _ = _ := by
        simp only [Piece.joined_append, Piece.joined_cons, String.append_assoc]

end Consists

theorem exists_consists {origin : Nat} {cs : List Char} {ls : List Lexeme}
    (h : lexemesFrom origin cs = .ok ls) :
    ∃ front pieces, Consists origin (String.ofList cs) ls front pieces := by
  induction origin, cs using lexemesFrom.induct generalizing ls with
  | case1 origin =>
    rw [lexemesFrom_nil] at h
    cases h
    exact ⟨"", [], .nothing origin⟩
  | case2 origin c rest hblank ih =>
    rw [lexemesFrom_blank hblank] at h
    obtain ⟨front, pieces, hrest⟩ := ih h
    rw [String.ofList_cons]
    exact ⟨_, pieces, hrest.blank hblank⟩
  | case3 origin c rest hblank ih =>
    replace hblank := eq_false_of_ne_true hblank
    obtain ⟨found, extra, more, htoken, hmore, rfl⟩ := (lexemesFrom_cons_eq_ok_iff hblank).mp h
    obtain ⟨front, pieces, hrest⟩ := ih extra hmore
    have hsplit : String.ofList (c :: rest) =
        String.ofList (c :: rest.take extra) ++ String.ofList (rest.drop extra) := by
      rw [← String.ofList_append, List.cons_append, List.take_append_drop]
    rw [hsplit]
    exact ⟨"", _, hrest.word hblank htoken⟩

/-- Cutting stops at the first place where no token is found, and up to there the text can be cut. -/
theorem exists_stop {origin : Nat} {cs : List Char} {cause : SyntaxError}
    (h : lexemesFrom origin cs = .error cause) :
    ∃ front c rest, cs = front ++ c :: rest ∧ isBlank c = false ∧
      (∃ ls, lexemesFrom origin front = .ok ls) ∧
      token (origin + byteLength front) c rest = .error cause := by
  induction origin, cs using lexemesFrom.induct with
  | case1 origin =>
    rw [lexemesFrom_nil] at h
    cases h
  | case2 origin d rest hblank ih =>
    rw [lexemesFrom_blank hblank] at h
    obtain ⟨front, c, rest, rfl, hc, ⟨ls, hls⟩, hstop⟩ := ih h
    refine ⟨d :: front, c, rest, rfl, hc, ⟨ls, ?_⟩, ?_⟩
    · rw [lexemesFrom_blank hblank, hls]
    · rw [byteLength, ← Nat.add_assoc, hstop]
  | case3 origin d rest hblank ih =>
    replace hblank := eq_false_of_ne_true hblank
    cases htoken : token origin d rest with
    | error cause' =>
      rw [lexemesFrom_error hblank htoken] at h
      cases h
      exact ⟨[], d, rest, rfl, hblank, ⟨[], lexemesFrom_nil _⟩, htoken⟩
    | ok token =>
      obtain ⟨found, extra⟩ := token
      rw [lexemesFrom_token hblank htoken] at h
      obtain ⟨front, c, back, hrest, hc, ⟨ls, hls⟩, hstop⟩ := ih extra (map_eq_error_iff.mp h)
      have hword : (rest.take extra).length = extra :=
        List.length_take_of_le (token_le_length htoken)
      have hsplit : rest = (rest.take extra ++ front) ++ c :: back := by
        rw [List.append_assoc, ← hrest, List.take_append_drop]
      refine ⟨d :: (rest.take extra ++ front), c, back, ?_, hc, ⟨⟨found, origin⟩ :: ls, ?_⟩, ?_⟩
      · rw [List.cons_append, ← hsplit]
      · have hextra : extra ≤ (rest.take extra ++ front).length := by
          rw [List.length_append, hword]
          exact Nat.le_add_right _ _
        rw [hsplit] at htoken
        refine lexemesFrom_eq_ok hblank (token_front htoken hextra origin) ?_
        rw [List.take_left' hword, List.drop_left' hword]
        exact hls
      · rw [← List.cons_append, byteLength_append, ← Nat.add_assoc]
        exact hstop

/-- Cutting a text loses nothing but blanks, and each token depends on its own word alone. Where a text
cannot be cut, the character or the number that is to blame stands in it, and the text before that can
be cut. -/
theorem lexemes_lossless (source : String) :
    match lexemes source with
    | .ok ls => ∃ front pieces, Consists 0 source ls front pieces
    | .error (.unexpectedCharacter found position) => ∃ before after : String,
        source = before ++ String.singleton found ++ after ∧ before.utf8ByteSize = position ∧
        (∃ ls, lexemes before = .ok ls) ∧
        lexemes (String.singleton found) = .error (.unexpectedCharacter found 0)
    | .error (.invalidNumber literal) => ∃ before after : String,
        source = before ++ literal ++ after ∧
        (∃ ls, lexemes before = .ok ls) ∧
        lexemes literal = .error (.invalidNumber literal)
    | .error _ => False := by
  cases h : lexemes source with
  | ok ls =>
    obtain ⟨front, pieces, hconsists⟩ := exists_consists h
    rw [String.ofList_toList] at hconsists
    exact ⟨front, pieces, hconsists⟩
  | error cause =>
    obtain ⟨front, c, rest, hsplit, hblank, ⟨ls, hls⟩, hstop⟩ := exists_stop h
    have hbefore : lexemes (String.ofList front) = .ok ls := by
      rw [lexemes, String.toList_ofList, hls]
    rw [Nat.zero_add] at hstop
    obtain ⟨rfl, halone⟩ | ⟨word, back, rfl, rfl, halone⟩ := token_error_cases hstop
    · refine ⟨String.ofList front, String.ofList rest, ?_, utf8ByteSize_ofList front, ⟨ls, hbefore⟩, ?_⟩
      · rw [← String.ofList_toList (s := source), hsplit, String.ofList_append, String.ofList_cons,
          String.append_assoc]
      · rw [lexemes, String.toList_singleton]
        exact lexemesFrom_error hblank (halone 0)
    · refine ⟨String.ofList front, String.ofList back, ?_, ⟨ls, hbefore⟩, ?_⟩
      · rw [← String.ofList_toList (s := source), hsplit, ← List.cons_append, String.ofList_append,
          String.ofList_append, String.append_assoc]
      · rw [lexemes, String.toList_ofList]
        exact lexemesFrom_error hblank (halone 0)

end Vigil.Expression

import Mathlib.Data.List.Chain
import Vigil.Proofs.Condition.Tokens
import Vigil.Proofs.Expression.Derivation
import Vigil.Proofs.Expression.Segments

/-!
# Parentheses between tokens

A parenthesis is a token of its own, so a text falls into the tokens before it and those after it.
Behind an operand the grammar wants a joint or a closing parenthesis; hence no text that compiles has a
word right before an opening one, and a text in parentheses compiles to the tree of the text.
-/

namespace Vigil.Condition

open Vigil.Expression
open Vigil.Text (isBlank isWordChar)

def isParen (c : Char) : Bool :=
  c == '(' || c == ')'

section Border

variable {c : Char}

theorem paren_cases (h : isParen c = true) : c = '(' ∨ c = ')' :=
  (Bool.or_eq_true_iff.mp h).imp eq_of_beq eq_of_beq

/-- A parenthesis continues no number, whatever is before it. -/
theorem continuesNumber_of_paren (h : isParen c = true) (previous : Char) :
    continuesNumber previous c = false := by
  rcases paren_cases h with rfl | rfl
  · rfl
  · rfl

theorem continuesName_of_paren (h : isParen c = true) : continuesName c = false := by
  rcases paren_cases h with rfl | rfl <;> decide

theorem nameTail_append_of_stop (hc : continuesName c = false) (cs ds : List Char) :
    nameTail (cs ++ c :: ds) = nameTail cs := by
  induction cs with
  | nil => exact if_neg (ne_true_of_eq_false hc)
  | cons d cs ih => rw [List.cons_append, nameTail, nameTail, ih]

theorem numberTail_append_of_stop (hc : ∀ previous, continuesNumber previous c = false)
    (previous : Char) (cs ds : List Char) :
    numberTail previous (cs ++ c :: ds) = numberTail previous cs := by
  induction cs generalizing previous with
  | nil => exact if_neg (ne_true_of_eq_false (hc previous))
  | cons d cs ih => rw [List.cons_append, numberTail, numberTail, ih]

theorem mark?_paren (hc : isParen c = true) (d : Char) : mark? d (some c) = mark? d none := by
  cases hd : isOperatorChar d with
  | true =>
    apply mark?_of_not_mark hd
    rcases paren_cases hc with rfl | rfl <;> decide
  | false =>
    rw [mark?.eq_def, mark?.eq_def]
    rcases paren_cases hc with rfl | rfl <;> split <;> simp_all

/-- No token reaches over a parenthesis. -/
theorem token_append_paren (hc : isParen c = true) (position : Nat) (d : Char) (cs ds : List Char) :
    token position d (cs ++ c :: ds) = token position d cs := by
  have hname : nameTail (cs ++ c :: ds) = nameTail cs :=
    nameTail_append_of_stop (continuesName_of_paren hc) cs ds
  have hnumber : numberTail d (cs ++ c :: ds) = numberTail d cs :=
    numberTail_append_of_stop (continuesNumber_of_paren hc) d cs ds
  have hmark : mark? d (cs ++ c :: ds).head? = mark? d cs.head? := by
    cases cs with
    | nil => exact mark?_paren hc d
    | cons e cs => rfl
  simp only [token, hname, hnumber, hmark, List.take_append_of_le_length (nameTail_le_length cs),
    List.take_append_of_le_length (numberTail_le_length d cs)]

theorem splits_blank {position : Nat} {first second : List Char} (hblank : isBlank c = true)
    (h : Splits (position + c.utf8Size) first second) : Splits position (c :: first) second := by
  unfold Splits at h ⊢
  rw [List.cons_append, lexemesFrom_blank hblank, h, lexemesFrom_blank hblank, byteLength,
    Nat.add_assoc]

/-- What stands before a parenthesis is read on its own. -/
theorem splits_paren (hc : isParen c = true) (ds : List Char) (position : Nat) (cs : List Char) :
    Splits position cs (c :: ds) := by
  induction position, cs using lexemesFrom.induct with
  | case1 position => exact splits_nil position _
  | case2 position d cs hblank ih => exact splits_blank hblank ih
  | case3 position d cs hblank ih =>
    replace hblank := eq_false_of_ne_true hblank
    have hboth := token_append_paren hc position d cs ds
    cases hfirst : token position d cs with
    | error cause => exact splits_error hblank hfirst (hboth.trans hfirst)
    | ok found =>
      exact splits_token hblank hfirst (hboth.trans hfirst) (token_le_length hfirst) (ih found.2)

end Border


section Words

variable {c : Char}

/-- The blanks outside ASCII. -/
def farBlanks : List Nat :=
  [0x85, 0xA0, 0x1680, 0x2000, 0x2001, 0x2002, 0x2003, 0x2004, 0x2005, 0x2006, 0x2007, 0x2008, 0x2009,
    0x200A, 0x2028, 0x2029, 0x202F, 0x205F, 0x3000]

theorem not_inRanges_of_farBlank : ∀ n ∈ farBlanks,
    Text.inRanges Text.alphabeticRanges n = false ∧ Text.inRanges Text.joiningRanges n = false := by
  decide +kernel

/-- A word character is no blank. -/
theorem not_blank_of_wordChar (h : isWordChar c = true) : isBlank c = false := by
  cases hascii : Text.isAsciiWordChar c with
  | true => exact (wordChar_facts hascii).1
  | false =>
    cases hblank : isBlank c with
    | false => rfl
    | true =>
      unfold Text.isAsciiWordChar at hascii
      unfold isWordChar Text.isAlphabetic at h
      simp only [Bool.or_eq_false_iff] at hascii
      simp only [hascii, Bool.or_eq_true, Bool.and_eq_true, decide_eq_true_eq, Bool.false_or,
        Bool.or_false] at h
      have hfar : c.toNat ∈ farBlanks := by
        simp only [isBlank, Bool.or_eq_true, Bool.and_eq_true, decide_eq_true_eq,
          beq_iff_eq] at hblank
        simp only [farBlanks, List.mem_cons, List.not_mem_nil]
        omega
      obtain ⟨halphabetic, hjoining⟩ := not_inRanges_of_farBlank c.toNat hfar
      rw [halphabetic, hjoining] at h
      rcases h with ⟨-, h⟩ | ⟨-, h⟩
      · cases h
      · cases h

/-- A word character is no mark of an expression, neither an operator nor a parenthesis. -/
theorem mark?_of_wordChar (h : isWordChar c = true) (next : Option Char) : mark? c next = none := by
  have hne : ∀ d, isWordChar d = false → c ≠ d := by
    rintro d hd rfl
    rw [h] at hd
    cases hd
  have hall : ['>', '<', '=', '!', '&', '|', '+', '-', '*', '/', '%', '(', ')'].all
      (fun d => !isWordChar d) = true := rfl
  have hmarks : ∀ d ∈ ['>', '<', '=', '!', '&', '|', '+', '-', '*', '/', '%', '(', ')'], c ≠ d :=
    fun d hd => hne d ((Bool.not_eq_true' _).mp (List.all_eq_true.mp hall d hd))
  simp only [List.mem_cons, List.not_mem_nil, or_false, forall_eq_or_imp, forall_eq] at hmarks
  rw [mark?.eq_def]
  split <;> simp_all

end Words


/-- A token that is an operand by itself. -/
def isAtom : Token → Bool
  | .number _ | .name _ => true
  | _ => false

section Atom

variable {position extra : Nat} {c : Char} {cs : List Char} {found : Token}

/-- A token is an operand by itself or a mark. -/
theorem isAtom_or_mark (h : token position c cs = .ok (found, extra)) :
    isAtom found = true ∨ mark? c cs.head? = some (found, extra) := by
  obtain ⟨-, -, value, -, rfl⟩ | ⟨-, -, -, rfl⟩ | ⟨-, -, hmark⟩ := token_cases h
  · exact .inl rfl
  · exact .inl rfl
  · exact .inr hmark

/-- The last token of a text that ends in a word character is an operand. -/
theorem getLast_lexemesFrom (hc : isWordChar c = true) {ls : List Lexeme}
    (h : lexemesFrom position (cs ++ [c]) = .ok ls) :
    ∃ l ∈ ls.getLast?, isAtom l.token = true := by
  induction hlength : cs.length using Nat.strongRecOn generalizing position cs ls with
  | ind n ih =>
    cases cs with
    | nil =>
      have hblank := not_blank_of_wordChar hc
      rw [List.nil_append] at h
      obtain ⟨found, extra, more, hfirst, hmore, rfl⟩ := (lexemesFrom_cons_eq_ok_iff hblank).mp h
      rw [List.drop_nil, lexemesFrom_nil] at hmore
      cases hmore
      rcases isAtom_or_mark hfirst with hatom | hmark
      · exact ⟨_, rfl, hatom⟩
      · rw [mark?_of_wordChar hc] at hmark
        cases hmark
    | cons d cs =>
      rw [List.length_cons] at hlength
      rw [List.cons_append] at h
      cases hblank : isBlank d with
      | true =>
        rw [lexemesFrom_blank hblank] at h
        exact ih cs.length (by omega) h rfl
      | false =>
        obtain ⟨found, extra, more, hfirst, hmore, rfl⟩ := (lexemesFrom_cons_eq_ok_iff hblank).mp h
        rcases Nat.lt_or_ge cs.length extra with hlong | hshort
        · -- the token takes the word character as well, which no mark does
          rw [List.drop_of_length_le (by rw [List.length_append, List.length_singleton]; omega),
            lexemesFrom_nil] at hmore
          cases hmore
          refine ⟨_, rfl, ?_⟩
          rcases isAtom_or_mark hfirst with hatom | hmark
          · exact hatom
          · rcases extra_of_mark? hmark with rfl | ⟨rfl, e, hhead, he⟩
            · omega
            · obtain rfl := List.length_eq_zero_iff.mp (Nat.lt_one_iff.mp hlong)
              cases hhead
              rw [not_mark_of_wordChar hc] at he
              cases he
        · rw [List.drop_append_of_le_length hshort] at hmore
          obtain ⟨l, hlast, hatom⟩ :=
            ih (cs.drop extra).length (by rw [List.length_drop]; omega) hmore rfl
          refine ⟨l, ?_, hatom⟩
          rw [List.getLast?_cons, Option.mem_def.mp hlast]
          rfl

end Atom

/-- A token that may end an operand. -/
def endsOperand (t : Token) : Bool :=
  isAtom t || t matches .closeParen

/-- Behind an operand stands a joint or a closing parenthesis. -/
def Follows (t u : Token) : Prop :=
  endsOperand t = true → u = .closeParen ∨ u.joint?.isSome

theorem isChain_of_derives {level : Level} {ts : List Token} {tree : Tree}
    (h : Derives level ts tree) : ts.IsChain Follows := by
  induction h with
  | tighter _ ih => exact ih
  | joined hmark _ _ ihleft ihright =>
    obtain ⟨joint, hjoint, -⟩ := hmark.joint
    refine List.isChain_append.mpr ⟨ihleft, List.isChain_cons.mpr ⟨?_, ihright⟩, ?_⟩
    · intro u _ hends
      cases hmark <;> cases hends
    · rintro t _ u ⟨⟩ _
      exact .inr (by rw [hjoint]; rfl)
  | negate _ ih => exact List.isChain_cons.mpr ⟨fun _ _ h => absurd h Bool.false_ne_true, ih⟩
  | not _ ih => exact List.isChain_cons.mpr ⟨fun _ _ h => absurd h Bool.false_ne_true, ih⟩
  | number value => exact List.isChain_singleton _
  | yes => exact List.isChain_singleton _
  | no => exact List.isChain_singleton _
  | named _ _ => exact List.isChain_singleton _
  | group _ ih =>
    refine List.isChain_cons.mpr ⟨fun _ _ h => absurd h Bool.false_ne_true, ?_⟩
    refine List.isChain_append.mpr ⟨ih, List.isChain_singleton _, ?_⟩
    rintro t _ u ⟨⟩ _
    exact .inl rfl


section Compile

variable {text : String} {e : Expression}

/-- A text compiles to a tree that the grammar derives from its tokens. -/
theorem compile_eq_ok_iff : compile text = .ok e ↔
    ∃ ls, lexemes text = .ok ls ∧ Derives .disjunction (tokens ls) e.tree ∧ e.source = text := by
  constructor
  · intro h
    obtain ⟨ls, hls, htree⟩ := bind_eq_ok_iff.mp h
    obtain ⟨tree, hread, ⟨⟩⟩ := bind_eq_ok_iff.mp htree
    exact ⟨ls, hls, ofLexemes_eq_ok_iff.mp hread, rfl⟩
  · rintro ⟨ls, hls, hderives, rfl⟩
    rw [compile_of_lexemes hls, ofLexemes_eq_ok_iff.mpr hderives]
    rfl

/-- What splits falls into the tokens of both texts. -/
theorem Splits.exists_of_ok {position : Nat} {first second : List Char} {ls : List Lexeme}
    (hsplits : Splits position first second) (h : lexemesFrom position (first ++ second) = .ok ls) :
    ∃ earlier later, lexemesFrom position first = .ok earlier ∧
      lexemesFrom (position + byteLength first) second = .ok later ∧ ls = earlier ++ later := by
  unfold Splits at hsplits
  rw [hsplits] at h
  obtain ⟨earlier, hearlier, h⟩ := bind_eq_ok_iff.mp h
  obtain ⟨later, hlater, ⟨⟩⟩ := bind_eq_ok_iff.mp h
  exact ⟨earlier, later, hearlier, hlater, rfl⟩

theorem lexemesFrom_openParen (position : Nat) (cs : List Char) :
    lexemesFrom position ('(' :: cs) =
      (lexemesFrom (position + 1) cs).map (⟨.openParen, position⟩ :: ·) :=
  lexemesFrom_token (by decide) (show token position '(' cs = .ok (.openParen, 0) from rfl)

/-- No text that compiles has a word before an opening parenthesis. -/
theorem not_word_before_paren (h : compile text = .ok e) {before after : List Char} {c : Char}
    (hc : isWordChar c = true) : text.toList ≠ before ++ c :: '(' :: after := by
  intro htext
  obtain ⟨ls, hls, hderives, -⟩ := compile_eq_ok_iff.mp h
  rw [lexemes, htext, ← List.singleton_append, ← List.append_assoc] at hls
  obtain ⟨earlier, later, hearlier, hlater, rfl⟩ :=
    (splits_paren (by decide) after 0 (before ++ [c])).exists_of_ok hls
  obtain ⟨l, hl, hatom⟩ := getLast_lexemesFrom hc hearlier
  rw [lexemesFrom_openParen] at hlater
  obtain ⟨more, -, rfl⟩ := map_eq_ok_iff.mp hlater
  have hchain := isChain_of_derives hderives
  rw [tokens, List.map_append] at hchain
  have hfollows := (List.isChain_append.mp hchain).2.2 l.token
    (by rw [List.getLast?_map, Option.mem_def.mp hl]; rfl) .openParen rfl
  have hends : endsOperand l.token = true := Bool.or_eq_true_iff.mpr (.inl hatom)
  rcases hfollows hends with h | h
  · cases h
  · cases h

theorem not_isInfix_of_compile (h : compile text = .ok e) {label after : List Char}
    (hlabel : Text.IsWord label) : ¬ label ++ '(' :: after <:+: text.toList := by
  rintro ⟨before, rest, htext⟩
  rcases List.eq_nil_or_concat' label with rfl | ⟨front, c, rfl⟩
  · exact hlabel.1 rfl
  · have hword := hlabel.2 c (List.mem_append_right _ (List.mem_singleton_self c))
    have hparts : text.toList = before ++ front ++ c :: '(' :: (after ++ rest) := by
      rw [← htext]
      simp only [List.append_assoc, List.cons_append, List.nil_append]
    exact not_word_before_paren h hword hparts

theorem token_of_position {p extra : Nat} {c : Char} {cs : List Char} {found : Token}
    (h : token p c cs = .ok (found, extra)) (q : Nat) : token q c cs = .ok (found, extra) := by
  have hextra := token_le_length h
  rw [← List.append_nil cs] at h
  exact token_front h hextra q

/-- The tokens of a text do not depend on the place where it starts. -/
theorem exists_lexemesFrom {p : Nat} {cs : List Char} {ls : List Lexeme}
    (h : lexemesFrom p cs = .ok ls) (q : Nat) :
    ∃ ls', lexemesFrom q cs = .ok ls' ∧ tokens ls' = tokens ls := by
  induction p, cs using lexemesFrom.induct generalizing q ls with
  | case1 p =>
    rw [lexemesFrom_nil] at h
    cases h
    exact ⟨[], lexemesFrom_nil q, rfl⟩
  | case2 p c cs hblank ih =>
    rw [lexemesFrom_blank hblank] at h ⊢
    exact ih h _
  | case3 p c cs hblank ih =>
    replace hblank := eq_false_of_ne_true hblank
    obtain ⟨found, extra, more, hfirst, hmore, rfl⟩ := (lexemesFrom_cons_eq_ok_iff hblank).mp h
    obtain ⟨more', hmore', htokens⟩ := ih extra hmore _
    refine ⟨_, lexemesFrom_eq_ok hblank (token_of_position hfirst q) hmore', ?_⟩
    exact congrArg (found :: ·) htokens

/-- A text in parentheses has the tree of the text. -/
theorem exists_compile_of_group (h : compile text = .ok e) :
    ∃ e', compile ("(" ++ text ++ ")") = .ok e' ∧ e'.tree = e.tree := by
  obtain ⟨ls, hls, hderives, -⟩ := compile_eq_ok_iff.mp h
  obtain ⟨inner, hinner, htokens⟩ := exists_lexemesFrom hls 1
  have hclose : ∀ position, lexemesFrom position [')'] = .ok [⟨.closeParen, position⟩] :=
    fun position => lexemesFrom_eq_ok (by decide) rfl (lexemesFrom_nil _)
  have hsplits := splits_paren (by decide : isParen ')' = true) [] 1 text.toList
  unfold Splits at hsplits
  rw [hinner, hclose] at hsplits
  have htext : ("(" ++ text ++ ")").toList = '(' :: (text.toList ++ [')']) := by
    rw [String.toList_append, String.toList_append]
    rfl
  have hlexemes : lexemes ("(" ++ text ++ ")") =
      .ok (⟨.openParen, 0⟩ :: (inner ++ [⟨.closeParen, 1 + byteLength text.toList⟩])) := by
    rw [lexemes, htext, lexemesFrom_openParen, hsplits]
    rfl
  refine ⟨⟨_, e.tree⟩, compile_eq_ok_iff.mpr ⟨_, hlexemes, ?_, rfl⟩, rfl⟩
  have hgroup := (Derives.group hderives).loosen (a := .disjunction) (by decide)
  rw [← htokens] at hgroup
  simpa only [tokens, List.map_cons, List.map_append, List.map_nil] using hgroup

end Compile

end Vigil.Condition

import Vigil.Expression.Lexer
import Vigil.Proofs.Results

/-!
# Cutting a text piece by piece

One equation for each way in which a text can begin, and the two kinds of tokens that run on: a name
and a number are one token each, up to the first character that does not continue them.
-/

namespace Vigil.Expression

open Vigil.Text (isBlank isAsciiDigit)

theorem byteLength_append (cs ds : List Char) :
    byteLength (cs ++ ds) = byteLength cs + byteLength ds := by
  induction cs with
  | nil => rw [List.nil_append, byteLength, Nat.zero_add]
  | cons c cs ih => rw [List.cons_append, byteLength, byteLength, ih, Nat.add_assoc]

section Head

variable {position extra : Nat} {c : Char} {rest : List Char} {found : Token}

theorem token_of_startsNumber (h : startsNumber c = true) (position : Nat) (rest : List Char) :
    token position c rest =
      match Decimal.read? (String.ofList (c :: rest.take (numberTail c rest))) with
      | some value => .ok (.number value, numberTail c rest)
      | none => .error (.invalidNumber (String.ofList (c :: rest.take (numberTail c rest)))) :=
  if_pos h

theorem token_of_startsName (hnumber : startsNumber c = false) (hname : startsName c = true)
    (position : Nat) (rest : List Char) :
    token position c rest =
      .ok (.name (String.ofList (c :: rest.take (nameTail rest))), nameTail rest) :=
  (if_neg (ne_true_of_eq_false hnumber)).trans (if_pos hname)

theorem token_of_other (hnumber : startsNumber c = false) (hname : startsName c = false)
    (position : Nat) (rest : List Char) :
    token position c rest =
      match mark? c rest.head? with
      | some found => .ok found
      | none => .error (.unexpectedCharacter c position) :=
  (if_neg (ne_true_of_eq_false hnumber)).trans (if_neg (ne_true_of_eq_false hname))

theorem lexemesFrom_nil (position : Nat) : lexemesFrom position [] = .ok [] := by
  rw [lexemesFrom]

theorem lexemesFrom_blank (hblank : isBlank c = true) :
    lexemesFrom position (c :: rest) = lexemesFrom (position + c.utf8Size) rest := by
  rw [lexemesFrom, if_pos hblank]

theorem lexemesFrom_token (hblank : isBlank c = false)
    (h : token position c rest = .ok (found, extra)) :
    lexemesFrom position (c :: rest) =
      (lexemesFrom (position + byteLength (c :: rest.take extra)) (rest.drop extra)).map
        (⟨found, position⟩ :: ·) := by
  rw [lexemesFrom, if_neg (ne_true_of_eq_false hblank), h]
  show (lexemesFrom _ (rest.drop extra) >>= _) = _
  cases lexemesFrom _ (rest.drop extra) <;> rfl

theorem lexemesFrom_eq_ok {more : List Lexeme} (hblank : isBlank c = false)
    (h : token position c rest = .ok (found, extra))
    (hmore : lexemesFrom (position + byteLength (c :: rest.take extra)) (rest.drop extra) =
      .ok more) :
    lexemesFrom position (c :: rest) = .ok (⟨found, position⟩ :: more) := by
  rw [lexemesFrom_token hblank h, hmore]
  rfl

/-- A text is cut when its first token is found and what follows that one is cut. -/
theorem lexemesFrom_cons_eq_ok_iff {ls : List Lexeme} (hblank : isBlank c = false) :
    lexemesFrom position (c :: rest) = .ok ls ↔
      ∃ found extra more, token position c rest = .ok (found, extra) ∧
        lexemesFrom (position + byteLength (c :: rest.take extra)) (rest.drop extra) = .ok more ∧
        ls = ⟨found, position⟩ :: more := by
  constructor
  · intro h
    rw [lexemesFrom, if_neg (ne_true_of_eq_false hblank)] at h
    obtain ⟨⟨found, extra⟩, hfound, h⟩ := bind_eq_ok_iff.mp h
    obtain ⟨more, hmore, ⟨⟩⟩ := bind_eq_ok_iff.mp h
    exact ⟨found, extra, more, hfound, hmore, rfl⟩
  · rintro ⟨found, extra, more, hfound, hmore, rfl⟩
    exact lexemesFrom_eq_ok hblank hfound hmore

theorem lexemesFrom_error {cause : SyntaxError} (hblank : isBlank c = false)
    (h : token position c rest = .error cause) :
    lexemesFrom position (c :: rest) = .error cause := by
  rw [lexemesFrom, if_neg (ne_true_of_eq_false hblank), h]
  rfl

end Head

theorem nameTail_append {word rest : List Char} (hword : ∀ c ∈ word, continuesName c = true)
    (hrest : ∀ c ∈ rest.head?, continuesName c = false) :
    nameTail (word ++ rest) = word.length := by
  induction word with
  | nil =>
    cases rest with
    | nil => rfl
    | cons c rest =>
      have hc := hrest c (by simp)
      rw [List.nil_append, nameTail, if_neg (ne_true_of_eq_false hc)]
      rfl
  | cons c word ih =>
    rw [List.cons_append, nameTail, if_pos (hword c (by simp)),
      ih fun d hd => hword d (List.mem_cons_of_mem _ hd)]
    rfl

/-- A digit, a point or the letter of a power of ten. -/
def isPlain (c : Char) : Bool :=
  isAsciiDigit c || c == '.' || c == 'e' || c == 'E'

theorem isPlain_of_digit {c : Char} (h : isAsciiDigit c = true) : isPlain c = true := by
  unfold isPlain
  rw [h, Bool.true_or, Bool.true_or, Bool.true_or]

theorem continuesNumber_of_isPlain {c : Char} (h : isPlain c = true) (previous : Char) :
    continuesNumber previous c = true := by
  unfold continuesNumber
  unfold isPlain at h
  rw [h, Bool.true_or]

theorem numberTail_append {word rest : List Char} {previous : Char}
    (hword : ∀ c ∈ word, isPlain c = true)
    (hrest : ∀ c ∈ rest.head?,
      continuesNumber ((previous :: word).getLast (List.cons_ne_nil _ _)) c = false) :
    numberTail previous (word ++ rest) = word.length := by
  induction word generalizing previous with
  | nil =>
    cases rest with
    | nil => rfl
    | cons c rest =>
      have hc := hrest c (by simp)
      rw [List.getLast_singleton] at hc
      rw [List.nil_append, numberTail, if_neg (ne_true_of_eq_false hc)]
      rfl
  | cons c word ih =>
    rw [List.cons_append, numberTail,
      if_pos (continuesNumber_of_isPlain (hword c (by simp)) previous)]
    rw [ih (fun d hd => hword d (List.mem_cons_of_mem _ hd)) ?_]
    · rfl
    · intro d hd
      have hlast := hrest d hd
      rwa [List.getLast_cons (List.cons_ne_nil _ _)] at hlast

section Words

variable {c : Char} {word rest : List Char}

theorem token_name (position : Nat) (hnumber : startsNumber c = false)
    (hname : startsName c = true) (hword : ∀ d ∈ word, continuesName d = true)
    (hrest : ∀ d ∈ rest.head?, continuesName d = false) :
    token position c (word ++ rest) = .ok (.name (String.ofList (c :: word)), word.length) := by
  rw [token_of_startsName hnumber hname, nameTail_append hword hrest, List.take_left' rfl]

theorem token_number {value : Float} (position : Nat) (hnumber : startsNumber c = true)
    (hword : ∀ d ∈ word, isPlain d = true)
    (hread : Decimal.read? (String.ofList (c :: word)) = some value)
    (hrest : ∀ d ∈ rest.head?,
      continuesNumber ((c :: word).getLast (List.cons_ne_nil _ _)) d = false) :
    token position c (word ++ rest) = .ok (.number value, word.length) := by
  rw [token_of_startsNumber hnumber, numberTail_append hword hrest, List.take_left' rfl, hread]

/-- A name is one token, up to the first character that does not continue it. -/
theorem lexemesFrom_name (position : Nat) (hblank : isBlank c = false)
    (hnumber : startsNumber c = false) (hname : startsName c = true)
    (hword : ∀ d ∈ word, continuesName d = true)
    (hrest : ∀ d ∈ rest.head?, continuesName d = false) :
    lexemesFrom position (c :: word ++ rest) =
      (lexemesFrom (position + byteLength (c :: word)) rest).map
        (⟨.name (String.ofList (c :: word)), position⟩ :: ·) := by
  rw [List.cons_append,
    lexemesFrom_token hblank (token_name position hnumber hname hword hrest),
    List.take_left' rfl, List.drop_left' rfl]

end Words

/-- Positions of tokens ascend, from where the text starts. -/
theorem ascending_lexemesFrom {position : Nat} {cs : List Char} {ls : List Lexeme}
    (h : lexemesFrom position cs = .ok ls) :
    (∀ l ∈ ls, position ≤ l.position) ∧ ls.Pairwise fun a b => a.position < b.position := by
  induction position, cs using lexemesFrom.induct generalizing ls with
  | case1 position =>
    rw [lexemesFrom_nil] at h
    cases h
    exact ⟨nofun, .nil⟩
  | case2 position c rest hblank ih =>
    rw [lexemesFrom_blank hblank] at h
    obtain ⟨hfrom, hascending⟩ := ih h
    exact ⟨fun l hl => Nat.le_trans (Nat.le_add_right _ _) (hfrom l hl), hascending⟩
  | case3 position c rest hblank ih =>
    obtain ⟨found, extra, more, -, hmore, rfl⟩ :=
      (lexemesFrom_cons_eq_ok_iff (eq_false_of_ne_true hblank)).mp h
    obtain ⟨hfrom, hascending⟩ := ih extra hmore
    have hpos : 0 < byteLength (c :: rest.take extra) :=
      Nat.lt_of_lt_of_le c.utf8Size_pos (Nat.le_add_right _ _)
    have hlater : ∀ l ∈ more, position < l.position := fun l hl =>
      Nat.lt_of_lt_of_le (Nat.lt_add_of_pos_right hpos) (hfrom l hl)
    refine ⟨fun l hl => ?_, List.pairwise_cons.mpr ⟨hlater, hascending⟩⟩
    rcases List.mem_cons.mp hl with rfl | hl
    · exact Nat.le_refl _
    · exact Nat.le_of_lt (hlater l hl)

theorem ascending_lexemes {source : String} {ls : List Lexeme} (h : lexemes source = .ok ls) :
    ls.Pairwise fun a b => a.position < b.position :=
  (ascending_lexemesFrom h).2

end Vigil.Expression

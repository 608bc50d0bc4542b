import Vigil.Expression
import Vigil.Proofs.Expression.Grammar
import Vigil.Proofs.Expression.Lexing
import Vigil.Proofs.Expression.Reading

/-!
# The parser and the grammar

What the parser reads is derivable, and what is derivable the parser reads. Both directions turn on
the tokens after a reading: an expression ends before a token that does not join at its level, and
the loop that continues a left operand may be entered wherever the next token binds no tighter than
what was read. Since the parser gives one tree, a list of tokens has at most one.
-/

namespace Vigil.Expression

abbrev tokens (ls : List Lexeme) : List Token := ls.map Lexeme.token

/-- No token at the head joins at the level of that number or above. -/
def Ends (level : Nat) (rest : List Lexeme) : Prop :=
  ∀ l ∈ rest.head?, ∀ joint, l.token.joint? = some joint → joint.level < level

theorem ends_nil (level : Nat) : Ends level [] := fun _ h => absurd h (by simp)

theorem ends_cons {level : Nat} {l : Lexeme} {rest : List Lexeme} :
    Ends level (l :: rest) ↔ ∀ joint, l.token.joint? = some joint → joint.level < level := by
  simp [Ends]

theorem Ends.mono {a b : Nat} {rest : List Lexeme} (h : Ends a rest) (hle : a ≤ b) :
    Ends b rest :=
  fun l hl joint hjoint => Nat.lt_of_lt_of_le (h l hl joint hjoint) hle

/-- No joint is above the products. -/
theorem ends_signed (rest : List Lexeme) : Ends 7 rest := by
  intro l _ joint hjoint
  obtain ⟨level, hjoins, hrank, _⟩ := exists_joins hjoint
  have := hjoins.rank_le
  omega

theorem readContinuation_of_ends {level : Nat} (left : Tree) {rest : List Lexeme}
    (h : Ends level rest) : readContinuation level left rest = .ok (left, rest) := by
  cases rest with
  | nil => exact readContinuation_nil level left
  | cons l rest => exact readContinuation_stop left rest (ends_cons.mp h)

/-- A reader takes an expression of a level from the head of the tokens. -/
def Takes (level : Level) (ts : List Lexeme) (tree : Tree) (rest : List Lexeme) : Prop :=
  ∃ used, ts = used ++ rest ∧ Derives level (tokens used) tree

/-- Readings of operands and expressions from shorter lists are derivable. -/
structure SoundBelow (n : Nat) : Prop where
  operand : ∀ {ts rest tree}, ts.length < n → readOperand ts = .ok (tree, rest) →
    Takes .signed ts tree rest
  expression : ∀ {level : Level} {ts rest tree}, ts.length < n →
    readExpression level.rank ts = .ok (tree, rest) → level.rank ≤ 7 →
    Takes level ts tree rest ∧ Ends level.rank rest

theorem takes_cons {level outer : Level} {l : Lexeme} {ts rest : List Lexeme} {tree whole : Tree}
    (h : Takes level ts tree rest)
    (hderives : ∀ us, Derives level us tree → Derives outer (l.token :: us) whole) :
    Takes outer (l :: ts) whole rest := by
  obtain ⟨used, rfl, hused⟩ := h
  exact ⟨l :: used, rfl, hderives _ hused⟩

theorem operand_sound {n : Nat} (ih : SoundBelow n) {ts rest : List Lexeme} {tree : Tree}
    (hlength : ts.length ≤ n) (h : readOperand ts = .ok (tree, rest)) :
    Takes .signed ts tree rest := by
  cases ts with
  | nil =>
    rw [readOperand_nil] at h
    cases h
  | cons l ts =>
    obtain ⟨token, position⟩ := l
    have hshort : ts.length < n := by
      rw [List.length_cons] at hlength
      omega
    cases token with
    | number value =>
      rw [readOperand_number] at h
      cases h
      exact ⟨[_], rfl, .tighter (.number value)⟩
    | name text =>
      rw [readOperand_name] at h
      cases h
      exact ⟨[_], rfl, .tighter (derives_name text)⟩
    | minus =>
      rw [readOperand_minus] at h
      cases hread : readOperand ts with
      | error cause =>
        rw [hread] at h
        cases h
      | ok r =>
        rw [hread] at h
        cases h
        exact takes_cons (ih.operand hshort hread) fun _ => .negate
    | bang =>
      rw [readOperand_bang] at h
      cases hread : readOperand ts with
      | error cause =>
        rw [hread] at h
        cases h
      | ok r =>
        rw [hread] at h
        cases h
        exact takes_cons (ih.operand hshort hread) fun _ => .not
    | openParen =>
      rw [readOperand_openParen] at h
      cases hread : readExpression 1 ts with
      | error cause =>
        rw [hread] at h
        cases h
      | ok r =>
        obtain ⟨inner, left⟩ := r
        rw [hread] at h
        obtain ⟨⟨used, hused, hderives⟩, _⟩ :=
          ih.expression (show ts.length < n from hshort)
            (show readExpression Level.disjunction.rank ts = _ from hread) (by decide)
        cases left with
        | nil => cases h
        | cons closing after =>
          obtain ⟨token, position'⟩ := closing
          cases token
          case closeParen =>
            cases h
            refine ⟨⟨.openParen, position⟩ :: (used ++ [⟨.closeParen, position'⟩]), ?_, ?_⟩
            · rw [hused]
              simp
            · have hgroup : Derives .signed (.openParen :: (tokens used ++ [.closeParen])) tree :=
                .tighter (.group hderives)
              simpa using hgroup
          all_goals cases h
    | _ =>
      rw [readOperand_stray _ _ rfl] at h
      cases h

/-- The loop goes on from a left operand of a level that binds as tightly as the next joint. -/
theorem continuation_sound {n : Nat} (ih : SoundBelow n) {level inner : Level}
    {ts rest : List Lexeme} {left tree : Tree} {before : List Token} (hlength : ts.length ≤ n)
    (hleft : Derives inner before left) (hinner : level.rank ≤ inner.rank)
    (hends : Ends (inner.rank + 1) ts)
    (h : readContinuation level.rank left ts = .ok (tree, rest)) :
    (∃ used, ts = used ++ rest ∧ Derives level (before ++ tokens used) tree) ∧
      Ends level.rank rest := by
  induction hts : ts.length using Nat.strongRecOn generalizing ts inner left before with
  | ind k loop =>
    by_cases hstop : Ends level.rank ts
    · rw [readContinuation_of_ends left hstop] at h
      cases h
      refine ⟨⟨[], rfl, ?_⟩, hstop⟩
      simpa using hleft.loosen hinner
    · cases ts with
      | nil => exact absurd (ends_nil _) hstop
      | cons l ts =>
        rw [ends_cons] at hstop hends
        obtain ⟨joint, hjoint, hlevel⟩ :
            ∃ joint, l.token.joint? = some joint ∧ level.rank ≤ joint.level := by
          simpa using hstop
        obtain ⟨middle, hjoins, hrank, htighter⟩ := exists_joins hjoint
        have hmiddle : middle.rank ≤ inner.rank := by
          have := hends joint hjoint
          omega
        have hseven : middle.tighter.rank ≤ 7 := by
          have := hjoins.rank_le
          omega
        rw [readContinuation_joint left ts hjoint hlevel, ← htighter] at h
        cases hread : readExpression middle.tighter.rank ts with
        | error cause =>
          rw [hread] at h
          cases h
        | ok r =>
          obtain ⟨right, after⟩ := r
          rw [hread] at h
          have hafter := length_of_readExpression hread
          rw [List.length_cons] at hlength hts
          obtain ⟨⟨used, rfl, hright⟩, hendsAfter⟩ := ih.expression (by omega) hread hseven
          rw [htighter, ← hrank] at hendsAfter
          obtain ⟨⟨more, rfl, hwhole⟩, hendsRest⟩ :=
            loop after.length (by omega) (by omega) (.joined hjoins (hleft.loosen hmiddle) hright)
              (by omega) hendsAfter h rfl
          refine ⟨⟨l :: (used ++ more), by simp, ?_⟩, hendsRest⟩
          simpa using hwhole

theorem expression_sound {n : Nat} (ih : SoundBelow n) {level : Level} {ts rest : List Lexeme}
    {tree : Tree} (hlength : ts.length ≤ n) (h : readExpression level.rank ts = .ok (tree, rest))
    (hlevel : level.rank ≤ 7) : Takes level ts tree rest ∧ Ends level.rank rest := by
  rw [readExpression_eq] at h
  cases hread : readOperand ts with
  | error cause =>
    rw [hread] at h
    cases h
  | ok r =>
    obtain ⟨first, after⟩ := r
    rw [hread] at h
    have hafter := length_of_readOperand hread
    obtain ⟨used, rfl, hfirst⟩ := operand_sound ih hlength hread
    have hsigned : Ends (Level.signed.rank + 1) after := (ends_signed after).mono (by decide)
    obtain ⟨⟨more, rfl, hwhole⟩, hends⟩ :=
      continuation_sound ih (by omega) hfirst hlevel hsigned h
    exact ⟨⟨used ++ more, by simp, by simpa using hwhole⟩, hends⟩

theorem soundBelow (n : Nat) : SoundBelow n := by
  induction n with
  | zero => exact ⟨fun h => absurd h (by omega), fun h => absurd h (by omega)⟩
  | succ n ih =>
    exact ⟨fun h => operand_sound ih (by omega), fun h => expression_sound ih (by omega)⟩

/-- The parser finds a derivable expression at the head of the tokens, whatever follows it. -/
structure Found (level : Level) (ts : List Lexeme) (tree : Tree) : Prop where
  operand : 7 ≤ level.rank → ∀ rest, readOperand (ts ++ rest) = .ok (tree, rest)
  expression : ∀ (n : Nat) (rest : List Lexeme), n ≤ level.rank → Ends (level.rank + 1) rest →
    readExpression n (ts ++ rest) = readContinuation n tree rest

/-- An operand is an expression that the loop continues. -/
theorem found_of_operand {level : Level} {ts : List Lexeme} {tree : Tree}
    (h : ∀ rest, readOperand (ts ++ rest) = .ok (tree, rest)) : Found level ts tree := by
  refine ⟨fun _ => h, ?_⟩
  intro n rest _ _
  rw [readExpression_eq, h]
  rfl

/-- What is found may be read up to a token that ends it. -/
theorem Found.read {level : Level} {ts rest : List Lexeme} {tree : Tree} (h : Found level ts tree)
    (hends : Ends level.rank rest) :
    readExpression level.rank (ts ++ rest) = .ok (tree, rest) := by
  rw [h.expression _ _ (Nat.le_refl _) (hends.mono (Nat.le_succ _)),
    readContinuation_of_ends tree hends]

theorem found_of_derives {level : Level} {us : List Token} {tree : Tree}
    (h : Derives level us tree) : ∀ ts : List Lexeme, tokens ts = us → Found level ts tree := by
  induction h with
  | @tighter level us tree h ih =>
    intro ts hts
    obtain ⟨hoperand, hexpression⟩ := ih ts hts
    have hle := level.rank_le_tighter
    refine ⟨fun hseven => hoperand (by omega), ?_⟩
    intro n rest hn hends
    exact hexpression n rest (by omega) (hends.mono (by omega))
  | @joined level mark combine ls rs left right hmark hleft hright ihleft ihright =>
    intro ts hts
    obtain ⟨front, back, rfl, hfront, hback⟩ := List.map_eq_append_iff.mp hts
    obtain ⟨l, back, rfl, rfl, hrs⟩ := List.map_eq_cons_iff.mp hback
    obtain ⟨joint, hjoint, hlevel, rfl⟩ := hmark.joint
    have htighter := hmark.rank_tighter
    refine ⟨?_, ?_⟩
    · intro hseven
      have := hmark.rank_le
      omega
    · intro n rest hn hends
      have hmarked : Ends (level.rank + 1) (l :: (back ++ rest)) := by
        rw [ends_cons]
        intro other hother
        rw [hjoint] at hother
        cases hother
        omega
      rw [List.append_assoc, List.cons_append,
        (ihleft front hfront).expression n _ hn hmarked,
        readContinuation_joint left _ hjoint (by omega), hlevel, ← htighter,
        (ihright back hrs).read (by rw [htighter]; exact hends)]
      rfl
  | @negate us tree h ih =>
    intro ts hts
    obtain ⟨⟨token, position⟩, ts, rfl, rfl, hrest⟩ := List.map_eq_cons_iff.mp hts
    refine found_of_operand ?_
    intro rest
    rw [List.cons_append, readOperand_minus, (ih ts hrest).operand (by decide)]
    rfl
  | @not us tree h ih =>
    intro ts hts
    obtain ⟨⟨token, position⟩, ts, rfl, rfl, hrest⟩ := List.map_eq_cons_iff.mp hts
    refine found_of_operand ?_
    intro rest
    rw [List.cons_append, readOperand_bang, (ih ts hrest).operand (by decide)]
    rfl
  | number value =>
    intro ts hts
    obtain ⟨⟨token, position⟩, ts, rfl, rfl, hrest⟩ := List.map_eq_cons_iff.mp hts
    obtain rfl := List.map_eq_nil_iff.mp hrest
    exact found_of_operand (readOperand_number position · value)
  | yes =>
    intro ts hts
    obtain ⟨⟨token, position⟩, ts, rfl, rfl, hrest⟩ := List.map_eq_cons_iff.mp hts
    obtain rfl := List.map_eq_nil_iff.mp hrest
    exact found_of_operand (readOperand_name position · "true")
  | no =>
    intro ts hts
    obtain ⟨⟨token, position⟩, ts, rfl, rfl, hrest⟩ := List.map_eq_cons_iff.mp hts
    obtain rfl := List.map_eq_nil_iff.mp hrest
    exact found_of_operand (readOperand_name position · "false")
  | @named name hyes hno =>
    intro ts hts
    obtain ⟨⟨token, position⟩, ts, rfl, rfl, hrest⟩ := List.map_eq_cons_iff.mp hts
    obtain rfl := List.map_eq_nil_iff.mp hrest
    have hname : Tree.ofName name = .variable name := by
      rw [Tree.ofName, if_neg hyes, if_neg hno]
    rw [← hname]
    exact found_of_operand (readOperand_name position · name)
  | @group us tree h ih =>
    intro ts hts
    obtain ⟨⟨token, position⟩, ts, rfl, rfl, hrest⟩ := List.map_eq_cons_iff.mp hts
    obtain ⟨inner, last, rfl, hinner, hlast⟩ := List.map_eq_append_iff.mp hrest
    obtain ⟨⟨closing, position'⟩, ts, rfl, rfl, hnil⟩ := List.map_eq_cons_iff.mp hlast
    obtain rfl := List.map_eq_nil_iff.mp hnil
    refine found_of_operand ?_
    intro rest
    have hends : Ends Level.disjunction.rank (⟨.closeParen, position'⟩ :: rest) := by
      rw [ends_cons]
      intro joint hjoint
      cases hjoint
    have hread := (ih inner hinner).read hends
    show readOperand (⟨.openParen, position⟩ :: (inner ++ [⟨.closeParen, position'⟩] ++ rest)) = _
    rw [readOperand_openParen, List.append_assoc, List.cons_append, List.nil_append]
    show readExpression Level.disjunction.rank _ >>= afterGroup = _
    rw [hread]
    rfl

/-- The parser accepts exactly the derivable tokens, with the tree that they derive. -/
theorem ofLexemes_eq_ok_iff {ls : List Lexeme} {tree : Tree} :
    Tree.ofLexemes ls = .ok tree ↔ Derives .disjunction (tokens ls) tree := by
  rw [ofLexemes_eq]
  constructor
  · intro h
    cases hread : readExpression 1 ls with
    | error cause =>
      rw [hread] at h
      cases h
    | ok r =>
      obtain ⟨whole, rest⟩ := r
      rw [hread] at h
      cases rest with
      | nil =>
        cases h
        obtain ⟨⟨used, hused, hderives⟩, _⟩ :=
          (soundBelow (ls.length + 1)).expression (Nat.lt_succ_self _)
            (show readExpression Level.disjunction.rank ls = _ from hread) (by decide)
        rw [hused, List.append_nil]
        exact hderives
      | cons l rest => cases h
  · intro h
    have hread := (found_of_derives h ls rfl).read (ends_nil Level.disjunction.rank)
    rw [List.append_nil] at hread
    show readExpression Level.disjunction.rank ls >>= _ = _
    rw [hread]
    rfl

theorem compile_of_lexemes {source : String} {ls : List Lexeme} (h : lexemes source = .ok ls) :
    compile source = (Tree.ofLexemes ls).map fun tree => ⟨source, tree⟩ := by
  unfold compile
  rw [h]
  show (Tree.ofLexemes ls >>= _) = _
  cases Tree.ofLexemes ls <;> rfl

/-- Of a text that falls into tokens an expression is made exactly when the grammar derives the
tokens, and its tree is the only one that the grammar gives them. -/
theorem compile_ok_iff_derives {source : String} {ls : List Lexeme}
    (h : lexemes source = .ok ls) :
    ((∃ e, compile source = .ok e) ↔ ∃ tree, Derives .disjunction (ls.map Lexeme.token) tree) ∧
    ∀ e, compile source = .ok e → e.source = source ∧
      ∀ tree, Derives .disjunction (ls.map Lexeme.token) tree ↔ tree = e.tree := by
  rw [compile_of_lexemes h]
  constructor
  · constructor
    · rintro ⟨e, he⟩
      cases htree : Tree.ofLexemes ls with
      | error cause =>
        rw [htree] at he
        cases he
      | ok tree => exact ⟨tree, ofLexemes_eq_ok_iff.mp htree⟩
    · rintro ⟨tree, hderives⟩
      rw [ofLexemes_eq_ok_iff.mpr hderives]
      exact ⟨_, rfl⟩
  · intro e he
    cases htree : Tree.ofLexemes ls with
    | error cause =>
      rw [htree] at he
      cases he
    | ok whole =>
      rw [htree] at he
      cases he
      refine ⟨rfl, fun tree => ?_⟩
      rw [← ofLexemes_eq_ok_iff, htree]
      constructor
      · intro heq
        cases heq
        rfl
      · intro heq
        rw [heq]

/-- A sign binds before a product, and differences group to the left. -/
theorem compile_signed_difference :
    let ls : List Lexeme :=
      [⟨.minus, 0⟩, ⟨.name "a", 1⟩, ⟨.minus, 2⟩, ⟨.name "b", 3⟩, ⟨.star, 4⟩, ⟨.name "c", 5⟩,
        ⟨.minus, 6⟩, ⟨.name "d", 7⟩]
    lexemes "-a-b*c-d" = .ok ls ∧
    ∃ e, compile "-a-b*c-d" = .ok e ∧
      e.tree = .apply .sub
        (.apply .sub (.negate (.variable "a")) (.apply .mul (.variable "b") (.variable "c")))
        (.variable "d") ∧
      ∀ tree, Derives .disjunction (ls.map Lexeme.token) tree ↔ tree = e.tree := by
  intro ls
  have hlexemes : lexemes "-a-b*c-d" = .ok ls := by
    show lexemesFrom 0 ['-', 'a', '-', 'b', '*', 'c', '-', 'd'] = .ok ls
    repeat refine lexemesFrom_eq_ok rfl rfl ?_
    exact lexemesFrom_nil _
  have hname (name : String) (hyes : name ≠ "true") (hno : name ≠ "false") :
      Derives .product [.name name] (.variable name) :=
    (Derives.named hyes hno).loosen (by decide)
  have hsign : Derives .sum [.minus, .name "a"] (.negate (.variable "a")) :=
    (Derives.negate (.tighter (.named (by decide) (by decide)))).loosen (by decide)
  have hproduct : Derives .product [.name "b", .star, .name "c"]
      (.apply .mul (.variable "b") (.variable "c")) :=
    Derives.joined .mul (hname "b" (by decide) (by decide))
      (.tighter (.named (by decide) (by decide)))
  have hfirst := Derives.joined .sub hsign hproduct
  have hwhole := (Derives.joined .sub hfirst (hname "d" (by decide) (by decide))).loosen
    (a := .disjunction) (by decide)
  obtain ⟨hiff, hunique⟩ := compile_ok_iff_derives hlexemes
  obtain ⟨e, he⟩ := hiff.mpr ⟨_, hwhole⟩
  have htree := ((hunique e he).2 _).mp hwhole
  exact ⟨hlexemes, e, he, htree.symm, (hunique e he).2⟩

end Vigil.Expression

import Vigil.Proofs.Expression.Derivation

/-!
# Where a text stops being an expression

Of what tokens mean so far only two things matter for those that may follow: whether an operand has to
come next, and how many parentheses are open. Tokens begin an expression exactly if each of them fits
the outlook that the ones before it leave, since any outlook can be completed: by a number if an operand
is missing, and by closing the parentheses. The parser blames the first token that does not fit, or the
end where all tokens fit and something is missing.
-/

namespace Vigil.Expression

/-- What may follow some tokens. -/
structure Outlook where
  needsOperand : Bool
  depth : Nat
  deriving DecidableEq, Repr

namespace Outlook

abbrev before (depth : Nat) : Outlook := ⟨true, depth⟩

abbrev behind (depth : Nat) : Outlook := ⟨false, depth⟩

def next? (o : Outlook) (t : Token) : Option Outlook :=
  if o.needsOperand then
    match t with
    | .number _ | .name _ => some (behind o.depth)
    | .minus | .bang => some o
    | .openParen => some (before (o.depth + 1))
    | _ => none
  else
    match t with
    | .closeParen => if o.depth = 0 then none else some (behind (o.depth - 1))
    | t => t.joint?.map fun _ => before o.depth

/-- The outlook after some tokens, if they fit one after the other. -/
def after? (o : Outlook) (ts : List Token) : Option Outlook :=
  ts.foldlM next? o

variable {o : Outlook} {depth : Nat} {t : Token} {ts us : List Token}

@[simp] theorem after?_nil (o : Outlook) : o.after? [] = some o := rfl

@[simp] theorem after?_cons (o : Outlook) (t : Token) (ts : List Token) :
    o.after? (t :: ts) = (o.next? t).bind fun o' => o'.after? ts :=
  List.foldlM_cons

@[simp] theorem after?_append (o : Outlook) (ts us : List Token) :
    o.after? (ts ++ us) = (o.after? ts).bind fun o' => o'.after? us :=
  List.foldlM_append

/-- A mark between operands asks for the second one. -/
theorem next?_of_joint {joint : Joint} (h : t.joint? = some joint) :
    (behind depth).next? t = some (before depth) := by
  cases t <;> cases h <;> rfl

/-- What is no mark between operands can only close a parenthesis. -/
theorem next?_of_no_joint (h : t.joint? = none) (hclose : t = .closeParen → depth = 0) :
    (behind depth).next? t = none := by
  cases t with
  | closeParen =>
    obtain rfl := hclose rfl
    rfl
  | _ => first | rfl | cases h

theorem next?_of_isStray (h : t.isStray = true) : (before depth).next? t = none := by
  cases t <;> first | rfl | cases h

/-- An expression is an operand, within however many parentheses. -/
theorem after?_of_derives {level : Level} {tree : Tree} (h : Derives level ts tree) (depth : Nat) :
    (before depth).after? ts = some (behind depth) := by
  induction h generalizing depth with
  | tighter _ ih => exact ih depth
  | joined hmark _ _ ihleft ihright =>
    obtain ⟨joint, hjoint, -⟩ := hmark.joint
    rw [after?_append, ihleft, Option.bind_some, after?_cons, next?_of_joint hjoint,
      Option.bind_some, ihright]
  | negate _ ih => exact ih depth
  | not _ ih => exact ih depth
  | number value => rfl
  | yes => rfl
  | no => rfl
  | named hyes hno => rfl
  | @group ts tree _ ih =>
    show (before (depth + 1)).after? (ts ++ [.closeParen]) = _
    rw [after?_append, ih]
    rfl

/-- Tokens that complete an outlook: a missing operand and the parentheses that are open. -/
def completion (o : Outlook) : List Token :=
  (if o.needsOperand then [.number 0.0] else []) ++ List.replicate o.depth .closeParen

theorem after?_replicate (depth : Nat) :
    (behind depth).after? (List.replicate depth .closeParen) = some (behind 0) := by
  induction depth with
  | zero => rfl
  | succ depth ih => exact ih

theorem after?_completion (o : Outlook) : o.after? o.completion = some (behind 0) := by
  obtain ⟨needs, depth⟩ := o
  cases needs <;> exact after?_replicate depth

end Outlook

open Outlook

/-- A cause is to blame for tokens that do not complete an operand: the first token that does not fit,
or the end. -/
inductive Blames (start : Outlook) (ls : List Lexeme) : SyntaxError → Prop where
  | token {front back : List Lexeme} {l : Lexeme} {o : Outlook} (hls : ls = front ++ l :: back)
      (hfront : start.after? (tokens front) = some o) (hnext : o.next? l.token = none) :
      Blames start ls l.unexpected
  | ending {o : Outlook} (hls : start.after? (tokens ls) = some o)
      (hopen : o.needsOperand = true ∨ start.depth < o.depth) : Blames start ls .unexpectedEnd

namespace Blames

variable {start middle : Outlook} {ls used : List Lexeme} {cause : SyntaxError}

/-- Tokens that fit before are not to blame. -/
theorem prepend (hused : start.after? (tokens used) = some middle) (hdepth : start.depth ≤ middle.depth)
    (h : Blames middle ls cause) : Blames start (used ++ ls) cause := by
  cases h with
  | @token front back l o hls hfront hnext =>
    have hsplit : used ++ ls = (used ++ front) ++ l :: back := by rw [hls, List.append_assoc]
    refine .token (o := o) hsplit ?_ hnext
    rw [tokens, List.map_append, after?_append, hused]
    exact hfront
  | @ending o hls hopen =>
    refine .ending (o := o) ?_ (hopen.imp_right (Nat.lt_of_le_of_lt hdepth))
    rw [tokens, List.map_append, after?_append, hused]
    exact hls

theorem cons {l : Lexeme} (hl : start.next? l.token = some middle) (hdepth : start.depth ≤ middle.depth)
    (h : Blames middle ls cause) : Blames start (l :: ls) cause := by
  have hone : start.after? (tokens [l]) = some middle := by
    rw [tokens, List.map_singleton, after?_cons, hl]
    rfl
  exact prepend hone hdepth h

theorem first {l : Lexeme} (hl : start.next? l.token = none) :
    Blames start (l :: ls) l.unexpected :=
  .token (List.nil_append _).symm rfl hl

/-- Nothing is to blame for a complete operand. -/
theorem not_complete (h : Blames start ls cause) :
    start.after? (tokens ls) ≠ some (behind start.depth) := by
  intro hcomplete
  cases h with
  | token hls hfront hnext =>
    rw [hls, tokens, List.map_append, after?_append, hfront, Option.bind_some, List.map_cons,
      after?_cons, hnext] at hcomplete
    cases hcomplete
  | ending hls hopen =>
    rw [hls] at hcomplete
    cases hcomplete
    exact hopen.elim nofun (Nat.lt_irrefl _)

end Blames

/-- A whole expression ends only before a token that is no mark between operands. -/
theorem joint?_eq_none_of_ends {l : Lexeme} {rest : List Lexeme} (h : Ends 1 (l :: rest)) :
    l.token.joint? = none := by
  rw [Option.eq_none_iff_forall_ne_some]
  intro joint hjoint
  have hlevel : 1 ≤ joint.level := by
    obtain ⟨level, -, hrank, -⟩ := exists_joins hjoint
    rw [← hrank]
    cases level <;> decide
  exact absurd (ends_cons.mp h joint hjoint) (Nat.not_lt.mpr hlevel)

/-- What was read of an expression is an operand of its own. -/
theorem Takes.exists_used {level : Level} {ls rest : List Lexeme} {tree : Tree}
    (h : Takes level ls tree rest) :
    ∃ used, ls = used ++ rest ∧ ∀ depth, (before depth).after? (tokens used) = some (behind depth) := by
  obtain ⟨used, hused, hderives⟩ := h
  exact ⟨used, hused, after?_of_derives hderives⟩

/-- Failures to read operands and expressions from shorter lists are blamed on the right token. -/
structure BlamesBelow (n : Nat) : Prop where
  operand : ∀ {ls cause}, ls.length < n → readOperand ls = .error cause →
    ∀ depth, Blames (before depth) ls cause
  expression : ∀ {level ls cause}, ls.length < n → readExpression level ls = .error cause →
    ∀ depth, Blames (before depth) ls cause

section Failures

variable {n : Nat} {ls : List Lexeme} {cause : SyntaxError}

/-- Behind an expression in parentheses only the closing one is missing. -/
theorem afterGroup_blames {l : Lexeme} {rest : List Lexeme} {inner : Tree}
    (hl : l.token = .openParen) (htakes : Takes .disjunction ls inner rest) (hends : Ends 1 rest)
    (h : afterGroup (inner, rest) = .error cause) (depth : Nat) :
    Blames (before depth) (l :: ls) cause := by
  obtain ⟨used, rfl, hused⟩ := htakes.exists_used
  have hopen : (before depth).after? (tokens (l :: used)) = some (behind (depth + 1)) := by
    rw [tokens, List.map_cons, hl]
    exact hused (depth + 1)
  cases rest with
  | nil =>
    cases h
    refine .ending (o := behind (depth + 1)) ?_ (.inr (Nat.lt_succ_self depth))
    rw [List.append_nil]
    exact hopen
  | cons closing after =>
    have hnone := joint?_eq_none_of_ends hends
    obtain ⟨token, position⟩ := closing
    have hclose : token ≠ .closeParen := by
      rintro rfl
      cases h
    have hcause : cause = Lexeme.unexpected ⟨token, position⟩ := by
      cases token <;> first | exact absurd rfl hclose | exact (Except.error.inj h).symm
    rw [hcause]
    exact .prepend hopen (Nat.le_succ depth)
      (.first (next?_of_no_joint hnone fun hsame => absurd hsame hclose))

theorem operand_blames (ih : BlamesBelow n) (hlength : ls.length ≤ n)
    (h : readOperand ls = .error cause) (depth : Nat) : Blames (before depth) ls cause := by
  cases ls with
  | nil =>
    rw [readOperand_nil] at h
    cases h
    exact .ending (o := before depth) rfl (.inl rfl)
  | cons l ls =>
    have hshort : ls.length < n := hlength
    obtain ⟨token, position⟩ := l
    cases token with
    | number value =>
      rw [readOperand_number] at h
      cases h
    | name text =>
      rw [readOperand_name] at h
      cases h
    | minus =>
      rw [readOperand_minus] at h
      have hread := map_eq_error_iff.mp h
      exact (ih.operand hshort hread depth).cons rfl (Nat.le_refl _)
    | bang =>
      rw [readOperand_bang] at h
      have hread := map_eq_error_iff.mp h
      exact (ih.operand hshort hread depth).cons rfl (Nat.le_refl _)
    | openParen =>
      rw [readOperand_openParen] at h
      rcases bind_eq_error_iff.mp h with hread | ⟨⟨inner, rest⟩, hread, hgroup⟩
      · exact (ih.expression hshort hread (depth + 1)).cons rfl (Nat.le_succ _)
      · obtain ⟨htakes, hends⟩ := (soundBelow n).expression hshort
          (show readExpression Level.disjunction.rank ls = _ from hread) (by decide)
        exact afterGroup_blames rfl htakes hends hgroup depth
    | _ =>
      rw [readOperand_stray _ _ rfl] at h
      cases h
      exact .first (next?_of_isStray rfl)

theorem continuation_blames (ih : BlamesBelow n) {level : Nat} {left : Tree}
    (hlength : ls.length ≤ n) (h : readContinuation level left ls = .error cause) (depth : Nat) :
    Blames (behind depth) ls cause := by
  induction hls : ls.length using Nat.strongRecOn generalizing ls left with
  | ind k loop =>
    by_cases hstop : Ends level ls
    · rw [readContinuation_of_ends left hstop] at h
      cases h
    · cases ls with
      | nil => exact absurd (ends_nil _) hstop
      | cons l ls =>
        rw [List.length_cons] at hlength hls
        rw [ends_cons] at hstop
        obtain ⟨joint, hjoint, hlevel⟩ :
            ∃ joint, l.token.joint? = some joint ∧ level ≤ joint.level := by
          simpa using hstop
        have hmark : (behind depth).after? (tokens [l]) = some (before depth) := by
          rw [tokens, List.map_singleton, after?_cons, next?_of_joint hjoint]
          rfl
        rw [readContinuation_joint left ls hjoint hlevel] at h
        rcases bind_eq_error_iff.mp h with hread | ⟨⟨right, rest⟩, hread, hmore⟩
        · exact (ih.expression (by omega) hread depth).prepend hmark (Nat.le_refl _)
        · obtain ⟨middle, hjoins, -, htighter⟩ := exists_joins hjoint
          have hseven : middle.tighter.rank ≤ 7 := by
            rw [hjoins.rank_tighter]
            exact Nat.succ_le_succ hjoins.rank_le
          have hrest := length_of_readExpression hread
          rw [← htighter] at hread
          obtain ⟨htakes, -⟩ := (soundBelow n).expression (by omega) hread hseven
          obtain ⟨used, rfl, hused⟩ := htakes.exists_used
          have hblames := loop rest.length (by omega) (show rest.length ≤ n by omega) hmore rfl
          have hoperand := hblames.prepend (hused depth) (Nat.le_refl _)
          exact hoperand.prepend hmark (Nat.le_refl _)

theorem expression_blames (ih : BlamesBelow n) {level : Nat} (hlength : ls.length ≤ n)
    (h : readExpression level ls = .error cause) (depth : Nat) :
    Blames (before depth) ls cause := by
  rw [readExpression_eq] at h
  rcases bind_eq_error_iff.mp h with hread | ⟨⟨first, rest⟩, hread, hmore⟩
  · exact operand_blames ih hlength hread depth
  · have hrest := length_of_readOperand hread
    obtain ⟨used, rfl, hused⟩ := (operand_sound (soundBelow n) hlength hread).exists_used
    have hfew : rest.length ≤ n := by omega
    exact (continuation_blames ih hfew hmore depth).prepend (hused depth) (Nat.le_refl _)

theorem blamesBelow (n : Nat) : BlamesBelow n := by
  induction n with
  | zero => exact ⟨fun h => absurd h (by omega), fun h => absurd h (by omega)⟩
  | succ n ih =>
    exact ⟨fun h => operand_blames ih (by omega), fun h => expression_blames ih (by omega)⟩

/-- Of tokens that are no expression the parser blames the first that does not fit, or the end. -/
theorem ofLexemes_blames (h : Tree.ofLexemes ls = .error cause) : Blames (before 0) ls cause := by
  rw [ofLexemes_eq] at h
  rcases bind_eq_error_iff.mp h with hread | ⟨⟨tree, rest⟩, hread, hleft⟩
  · exact (blamesBelow (ls.length + 1)).expression (Nat.lt_succ_self _) hread 0
  · cases rest with
    | nil => cases hleft
    | cons l rest =>
      cases hleft
      obtain ⟨htakes, hends⟩ := (soundBelow (ls.length + 1)).expression (Nat.lt_succ_self _)
        (show readExpression Level.disjunction.rank ls = _ from hread) (by decide)
      obtain ⟨used, rfl, hused⟩ := htakes.exists_used
      exact .token rfl (hused 0) (next?_of_no_joint (joint?_eq_none_of_ends hends) fun _ => rfl)

end Failures

/-- The tokens begin an expression. -/
def Viable (ts : List Token) : Prop :=
  ∃ more tree, Derives .disjunction (ts ++ more) tree

/-- Tokens that fit one after the other begin an expression: the parser reads their completion, as there
is nothing to blame. -/
theorem viable_iff {ts : List Token} : Viable ts ↔ ∃ o, (before 0).after? ts = some o := by
  constructor
  · rintro ⟨more, tree, hderives⟩
    have hwhole := after?_of_derives hderives 0
    rw [after?_append] at hwhole
    obtain ⟨o, ho, -⟩ := Option.bind_eq_some_iff.mp hwhole
    exact ⟨o, ho⟩
  · rintro ⟨o, ho⟩
    have htokens : tokens ((ts ++ o.completion).map fun t => ⟨t, 0⟩) = ts ++ o.completion := by
      rw [tokens, List.map_map]
      exact List.map_id _
    have hcomplete : (before 0).after? (ts ++ o.completion) = some (behind 0) := by
      rw [after?_append, ho, Option.bind_some, after?_completion]
    cases hread : Tree.ofLexemes ((ts ++ o.completion).map fun t => ⟨t, 0⟩) with
    | ok tree => exact ⟨o.completion, tree, htokens ▸ ofLexemes_eq_ok_iff.mp hread⟩
    | error cause => exact absurd (htokens.symm ▸ hcomplete) (ofLexemes_blames hread).not_complete

theorem Viable.of_append {ts us : List Token} (h : Viable (ts ++ us)) : Viable ts := by
  obtain ⟨more, tree, hderives⟩ := h
  exact ⟨us ++ more, tree, by rwa [← List.append_assoc]⟩

theorem viable_of_derives {ts : List Token} {tree : Tree} (h : Derives .disjunction ts tree) :
    Viable ts :=
  ⟨[], tree, by rwa [List.append_nil]⟩

/-- Two places in one list are the same, or one stands before the other. -/
theorem same_or_before_of_split {α : Type} {front back front' back' : List α} {a a' : α}
    (h : front ++ a :: back = front' ++ a' :: back') :
    (front = front' ∧ a = a') ∨ (∃ more, front' = front ++ a :: more) ∨
      ∃ more, front = front' ++ a' :: more := by
  rcases List.append_eq_append_iff.mp h with ⟨more, hfront, hback⟩ | ⟨more, hfront, hback⟩
  · cases more with
    | nil =>
      cases hback
      exact .inl ⟨by rw [hfront, List.append_nil], rfl⟩
    | cons b more =>
      cases hback
      exact .inr (.inl ⟨more, hfront⟩)
  · cases more with
    | nil =>
      cases hback
      exact .inl ⟨by rw [hfront, List.append_nil], rfl⟩
    | cons b more =>
      cases hback
      exact .inr (.inr ⟨more, hfront⟩)

section Causes

variable {ls front back : List Lexeme} {l : Lexeme} {cause : SyntaxError}

/-- The token to blame is the first after which the tokens begin no expression; the end is to blame for
the beginning of an expression that is not a whole one. -/
theorem Blames.cases_viable (h : Blames (before 0) ls cause) :
    (∃ front l back, ls = front ++ l :: back ∧ cause = l.unexpected ∧ Viable (tokens front) ∧
      ¬ Viable (tokens (front ++ [l]))) ∨
    (cause = .unexpectedEnd ∧ Viable (tokens ls) ∧ ¬ ∃ tree, Derives .disjunction (tokens ls) tree) := by
  have hwhole : ¬ ∃ tree, Derives .disjunction (tokens ls) tree :=
    fun ⟨_, hderives⟩ => h.not_complete (after?_of_derives hderives 0)
  cases h with
  | @token front back l o hls hfront hnext =>
    refine .inl ⟨front, l, back, hls, rfl, viable_iff.mpr ⟨o, hfront⟩, ?_⟩
    rw [viable_iff, tokens, List.map_append, after?_append, hfront, Option.bind_some,
      List.map_singleton, after?_cons, hnext]
    exact nofun
  | @ending o hls hopen => exact .inr ⟨rfl, viable_iff.mpr ⟨o, hls⟩, hwhole⟩

theorem not_viable_of_split {more : List Lexeme} (h : ¬ Viable (tokens (front ++ [l]))) :
    ¬ Viable (tokens (front ++ l :: more)) := by
  intro hmore
  have happend : Viable (tokens (front ++ [l]) ++ tokens more) := by
    rwa [tokens, tokens, ← List.map_append, List.append_assoc]
  exact h happend.of_append

/-- The parser blames a token exactly when the tokens before it begin an expression and with it they
do not. -/
theorem ofLexemes_eq_unexpected (hls : ls = front ++ l :: back) (hfront : Viable (tokens front))
    (hstuck : ¬ Viable (tokens (front ++ [l]))) : Tree.ofLexemes ls = .error l.unexpected := by
  have hwhole : ¬ Viable (tokens ls) := hls ▸ not_viable_of_split hstuck
  cases hread : Tree.ofLexemes ls with
  | ok tree => exact absurd (viable_of_derives (ofLexemes_eq_ok_iff.mp hread)) hwhole
  | error cause =>
    rcases (ofLexemes_blames hread).cases_viable with
      ⟨front', l', back', hls', rfl, hfront', hstuck'⟩ | ⟨-, hviable, -⟩
    · rcases same_or_before_of_split (hls.symm.trans hls') with ⟨-, rfl⟩ | ⟨more, rfl⟩ | ⟨more, rfl⟩
      · rfl
      · exact absurd hfront' (not_viable_of_split hstuck)
      · exact absurd hfront (not_viable_of_split hstuck')
    · exact absurd hviable hwhole

theorem ofLexemes_eq_unexpectedEnd (hviable : Viable (tokens ls))
    (hwhole : ¬ ∃ tree, Derives .disjunction (tokens ls) tree) :
    Tree.ofLexemes ls = .error .unexpectedEnd := by
  cases hread : Tree.ofLexemes ls with
  | ok tree => exact absurd ⟨tree, ofLexemes_eq_ok_iff.mp hread⟩ hwhole
  | error cause =>
    rcases (ofLexemes_blames hread).cases_viable with
      ⟨front, l, back, rfl, -, -, hstuck⟩ | ⟨rfl, -, -⟩
    · exact absurd hviable (not_viable_of_split hstuck)
    · rfl

/-- Positions tell tokens apart, so a token is named by its position. -/
theorem split_of_position (hascending : ls.Pairwise fun a b => a.position < b.position)
    (hls : ls = front ++ l :: back) {front' back' : List Lexeme} {l' : Lexeme}
    (hls' : ls = front' ++ l' :: back') (hposition : l.position = l'.position) :
    front = front' ∧ l = l' := by
  have hbefore : ∀ {a b : Lexeme} {as more bs : List Lexeme}, ls = as ++ a :: more ++ b :: bs →
      a.position < b.position := by
    intro a b as more bs hsplit
    rw [hsplit] at hascending
    exact (List.pairwise_append.mp hascending).2.2 a
      (List.mem_append_right _ List.mem_cons_self) b List.mem_cons_self
  rcases same_or_before_of_split (hls.symm.trans hls') with hsame | ⟨more, rfl⟩ | ⟨more, rfl⟩
  · exact hsame
  · exact absurd hposition (Nat.ne_of_lt (hbefore hls'))
  · exact absurd hposition.symm (Nat.ne_of_lt (hbefore hls))

end Causes

theorem compile_eq_error_iff {source : String} {ls : List Lexeme} {cause : SyntaxError}
    (h : lexemes source = .ok ls) :
    compile source = .error cause ↔ Tree.ofLexemes ls = .error cause := by
  rw [compile_of_lexemes h, map_eq_error_iff]

/-- A text that falls into tokens and is no expression fails at the first token with which the tokens
cannot be continued to an expression, or at the end where they can; and in no other way. -/
theorem compile_fails_at_first_misfit {source : String} {ls : List Lexeme}
    (h : lexemes source = .ok ls) :
    (∀ front l back, ls = front ++ l :: back →
      ((∃ found, compile source = .error (.unexpectedToken found l.position)) ↔
        Viable (tokens front) ∧ ¬ Viable (tokens (front ++ [l]))) ∧
      ∀ found, compile source = .error (.unexpectedToken found l.position) →
        found = l.token.text) ∧
    (compile source = .error .unexpectedEnd ↔
      (¬ ∃ tree, Derives .disjunction (tokens ls) tree) ∧ Viable (tokens ls)) ∧
    ∀ cause, compile source = .error cause →
      cause = .unexpectedEnd ∨ ∃ l ∈ ls, cause = .unexpectedToken l.token.text l.position := by
  have hascending := ascending_lexemes h
  have hblamed : ∀ {front l back found}, ls = front ++ l :: back →
      compile source = .error (.unexpectedToken found l.position) →
      found = l.token.text ∧ Viable (tokens front) ∧ ¬ Viable (tokens (front ++ [l])) := by
    intro front l back found hls hcause
    rcases (ofLexemes_blames ((compile_eq_error_iff h).mp hcause)).cases_viable with
      ⟨front', l', back', hls', hsame, hfront, hstuck⟩ | ⟨hend, -, -⟩
    · obtain ⟨rfl, hposition⟩ := SyntaxError.unexpectedToken.inj hsame
      obtain ⟨rfl, rfl⟩ := split_of_position hascending hls hls' hposition
      exact ⟨rfl, hfront, hstuck⟩
    · cases hend
  refine ⟨fun front l back hls => ⟨⟨?_, ?_⟩, fun found hcause => (hblamed hls hcause).1⟩, ?_, ?_⟩
  · rintro ⟨found, hcause⟩
    exact (hblamed hls hcause).2
  · rintro ⟨hfront, hstuck⟩
    exact ⟨_, (compile_eq_error_iff h).mpr (ofLexemes_eq_unexpected hls hfront hstuck)⟩
  · rw [compile_eq_error_iff h]
    constructor
    · intro hcause
      rcases (ofLexemes_blames hcause).cases_viable with ⟨_, l, _, _, ⟨⟩, _⟩ | ⟨-, hviable, hwhole⟩
      exact ⟨hwhole, hviable⟩
    · rintro ⟨hwhole, hviable⟩
      exact ofLexemes_eq_unexpectedEnd hviable hwhole
  · intro cause hcause
    rcases (ofLexemes_blames ((compile_eq_error_iff h).mp hcause)).cases_viable with
      ⟨front, l, back, rfl, hsame, -⟩ | ⟨hend, -⟩
    · exact .inr ⟨l, List.mem_append_right _ List.mem_cons_self, hsame⟩
    · exact .inl hend

/-- The tokens of `(a>)`. -/
def closedEarly : List Lexeme :=
  [⟨.openParen, 0⟩, ⟨.name "a", 1⟩, ⟨.greater, 2⟩, ⟨.closeParen, 3⟩]

/-- A comparison without its second operand fails at the parenthesis that follows, one without more
tokens at its end. -/
theorem compile_unfinished_comparison :
    lexemes "(a>)" = .ok closedEarly ∧ lexemes "(a>" = .ok (closedEarly.take 3) ∧
    Viable (tokens (closedEarly.take 3)) ∧ ¬ Viable (tokens closedEarly) ∧
    (¬ ∃ tree, Derives .disjunction (tokens (closedEarly.take 3)) tree) ∧
    compile "(a>)" = .error (.unexpectedToken ")" 3) ∧
    compile "(a>" = .error .unexpectedEnd := by
  have hclosed : lexemes "(a>)" = .ok closedEarly := by
    show lexemesFrom 0 ['(', 'a', '>', ')'] = .ok closedEarly
    repeat refine lexemesFrom_eq_ok rfl rfl ?_
    exact lexemesFrom_nil _
  have hbroken : lexemes "(a>" = .ok (closedEarly.take 3) := by
    show lexemesFrom 0 ['(', 'a', '>'] = .ok (closedEarly.take 3)
    repeat refine lexemesFrom_eq_ok rfl rfl ?_
    exact lexemesFrom_nil _
  have hbegun : Viable (tokens (closedEarly.take 3)) := viable_iff.mpr ⟨before 1, rfl⟩
  have hstuck : ¬ Viable (tokens closedEarly) := by
    rw [viable_iff]
    rintro ⟨o, ⟨⟩⟩
  have hpart : ¬ ∃ tree, Derives .disjunction (tokens (closedEarly.take 3)) tree := by
    rintro ⟨tree, hderives⟩
    cases after?_of_derives hderives 0
  obtain ⟨hfails, htext⟩ :=
    (compile_fails_at_first_misfit hclosed).1 (closedEarly.take 3) ⟨.closeParen, 3⟩ [] rfl
  obtain ⟨found, hfound⟩ := hfails.mpr ⟨hbegun, hstuck⟩
  rw [htext found hfound] at hfound
  have hend := (compile_fails_at_first_misfit hbroken).2.1.mpr ⟨hpart, hbegun⟩
  exact ⟨hclosed, hbroken, hbegun, hstuck, hpart, hfound, hend⟩

end Vigil.Expression

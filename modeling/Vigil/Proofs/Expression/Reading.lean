import Vigil.Expression.Parser

/-!
# What the parser reads

The parser carries a bound on the tokens left with every reading. Here the readings stand without
it, as a tree and the tokens after it, and each of the three mutually recursive readers has one
equation for each form of its input. Proofs about the parser use these equations only.
-/

namespace Vigil.Expression

/-- A tree and the tokens after it, or why there is none. -/
abbrev Read := Except SyntaxError (Tree × List Lexeme)

/-- A reading without its bound. -/
def Reading.plain {limit : Nat} (r : Reading limit) : Tree × List Lexeme := (r.tree, r.rest)

def readOperand (ts : List Lexeme) : Read := (operand ts).map Reading.plain

/-- The expression of joints of at least a level at the head of the tokens. -/
def readExpression (level : Nat) (ts : List Lexeme) : Read :=
  (expression level ts).map Reading.plain

/-- The continuation of a left operand by joints of at least a level. -/
def readContinuation (level : Nat) (left : Tree) (ts : List Lexeme) : Read :=
  (continuation level left ts).map Reading.plain

section Operand

variable (position : Nat) (rest : List Lexeme)

theorem readOperand_nil : readOperand [] = .error .unexpectedEnd := by
  rw [readOperand, operand]
  rfl

theorem readOperand_number (value : Float) :
    readOperand (⟨.number value, position⟩ :: rest) = .ok (.number value, rest) := by
  rw [readOperand, operand]
  rfl

theorem readOperand_name (text : String) :
    readOperand (⟨.name text, position⟩ :: rest) = .ok (.ofName text, rest) := by
  rw [readOperand, operand]
  rfl

theorem readOperand_minus :
    readOperand (⟨.minus, position⟩ :: rest) =
      (readOperand rest).map fun r => (.negate r.1, r.2) := by
  rw [readOperand, operand, readOperand]
  cases operand rest <;> rfl

theorem readOperand_bang :
    readOperand (⟨.bang, position⟩ :: rest) =
      (readOperand rest).map fun r => (.not r.1, r.2) := by
  rw [readOperand, operand, readOperand]
  cases operand rest <;> rfl

/-- What has to follow the expression in parentheses. -/
def afterGroup : Tree × List Lexeme → Read
  | (_, []) => .error .unexpectedEnd
  | (tree, closing :: after) =>
    match closing.token with
    | .closeParen => .ok (tree, after)
    | _ => .error closing.unexpected

theorem readOperand_openParen :
    readOperand (⟨.openParen, position⟩ :: rest) = readExpression 1 rest >>= afterGroup := by
  rw [readOperand, operand, readExpression]
  cases expression 1 rest with
  | error cause => rfl
  | ok r =>
    obtain ⟨tree, left, hlength⟩ := r
    cases left with
    | nil => rfl
    | cons closing after =>
      obtain ⟨token, position'⟩ := closing
      cases token <;> rfl

def Token.isStray : Token → Bool
  | .number _ | .name _ | .minus | .bang | .openParen => false
  | _ => true

theorem readOperand_stray {token : Token} (h : token.isStray = true) :
    readOperand (⟨token, position⟩ :: rest) =
      .error (Lexeme.unexpected ⟨token, position⟩) := by
  rw [readOperand, operand]
  cases token <;> first | rfl | cases h

end Operand

theorem readExpression_eq (level : Nat) (ts : List Lexeme) :
    readExpression level ts =
      readOperand ts >>= fun first => readContinuation level first.1 first.2 := by
  rw [readExpression, expression, readOperand]
  cases operand ts with
  | error cause => rfl
  | ok first =>
    show _ = readContinuation level first.tree first.rest
    rw [readContinuation]
    show Except.map Reading.plain (continuation level first.tree first.rest >>= _) = _
    cases continuation level first.tree first.rest <;> rfl

theorem readContinuation_nil (level : Nat) (left : Tree) :
    readContinuation level left [] = .ok (left, []) := by
  rw [readContinuation, continuation]
  rfl

/-- A token below the level, or none that joins, ends an expression. -/
theorem readContinuation_stop {level : Nat} (left : Tree) {l : Lexeme} (rest : List Lexeme)
    (h : ∀ joint, l.token.joint? = some joint → joint.level < level) :
    readContinuation level left (l :: rest) = .ok (left, l :: rest) := by
  rw [readContinuation, continuation]
  cases hjoint : l.token.joint? with
  | none => rfl
  | some joint =>
    simp only [if_pos (h joint hjoint)]
    rfl

theorem readContinuation_joint {level : Nat} (left : Tree) {l : Lexeme} (rest : List Lexeme)
    {joint : Joint} (hjoint : l.token.joint? = some joint) (hlevel : level ≤ joint.level) :
    readContinuation level left (l :: rest) =
      readExpression (joint.level + 1) rest >>= fun right =>
        readContinuation level (joint.join left right.1) right.2 := by
  rw [readContinuation, continuation, readExpression]
  simp only [hjoint, if_neg (Nat.not_lt.mpr hlevel)]
  cases expression (joint.level + 1) rest with
  | error cause => rfl
  | ok right =>
    show _ = readContinuation level (joint.join left right.tree) right.rest
    rw [readContinuation]
    show Except.map Reading.plain
      (continuation level (joint.join left right.tree) right.rest >>= _) = _
    cases continuation level (joint.join left right.tree) right.rest <;> rfl

theorem ofLexemes_eq (ts : List Lexeme) :
    Tree.ofLexemes ts = readExpression 1 ts >>= fun r =>
      match r.2 with
      | [] => .ok r.1
      | l :: _ => .error l.unexpected := by
  rw [Tree.ofLexemes, readExpression]
  cases expression 1 ts with
  | error cause => rfl
  | ok r =>
    obtain ⟨tree, rest, hlength⟩ := r
    cases rest <;> rfl

theorem length_of_readContinuation {level : Nat} {left tree : Tree} {ts rest : List Lexeme}
    (h : readContinuation level left ts = .ok (tree, rest)) : rest.length ≤ ts.length := by
  rw [readContinuation] at h
  cases hread : continuation level left ts with
  | error cause =>
    rw [hread] at h
    cases h
  | ok r =>
    rw [hread] at h
    cases h
    exact r.length_rest

theorem length_of_readOperand {tree : Tree} {ts rest : List Lexeme}
    (h : readOperand ts = .ok (tree, rest)) : rest.length < ts.length := by
  cases ts with
  | nil =>
    rw [readOperand_nil] at h
    cases h
  | cons l ts =>
    rw [readOperand] at h
    cases hread : operand (l :: ts) with
    | error cause =>
      rw [hread] at h
      cases h
    | ok r =>
      rw [hread] at h
      cases h
      have := r.length_rest
      simp only [List.length_cons] at this
      show r.rest.length < ts.length + 1
      omega

theorem length_of_readExpression {level : Nat} {tree : Tree} {ts rest : List Lexeme}
    (h : readExpression level ts = .ok (tree, rest)) : rest.length < ts.length := by
  rw [readExpression_eq] at h
  cases hread : readOperand ts with
  | error cause =>
    rw [hread] at h
    cases h
  | ok first =>
    rw [hread] at h
    exact Nat.lt_of_le_of_lt (length_of_readContinuation h) (length_of_readOperand hread)

end Vigil.Expression

import Vigil.Expression.Tree

/-!
# From tokens to a tree

An operand is a number, a name, an operand after `-` or `!`, or an expression in parentheses. An
expression at a level is an operand followed by joints of that level or above with their right
operands; the right operand of a joint holds only joints of higher levels, so that joints of one
level group to the left. The first token that cannot continue an expression is reported.
-/

namespace Vigil.Expression

/-- A tree, and the tokens after those that it was read from. -/
structure Reading (limit : Nat) where
  tree : Tree
  rest : List Lexeme
  length_rest : rest.length ≤ limit

/-- The same reading under a weaker bound on the tokens left. -/
def Reading.weaken {a b : Nat} (r : Reading a) (h : a ≤ b) : Reading b :=
  ⟨r.tree, r.rest, Nat.le_trans r.length_rest h⟩

/-- The error of a token that stands in the wrong place. -/
def Lexeme.unexpected (l : Lexeme) : SyntaxError :=
  .unexpectedToken l.token.text l.position

mutual

/-- The operand at the head of the tokens. -/
def operand (ts : List Lexeme) : Except SyntaxError (Reading (ts.length - 1)) :=
  match ts with
  | [] => .error .unexpectedEnd
  | l :: rest =>
    match l.token with
    | .number value => .ok ⟨.number value, rest, Nat.le_refl _⟩
    | .name text => .ok ⟨.ofName text, rest, Nat.le_refl _⟩
    | .minus => do
      let r ← operand rest
      return ⟨.negate r.tree, r.rest, by have := r.length_rest; simp; omega⟩
    | .bang => do
      let r ← operand rest
      return ⟨.not r.tree, r.rest, by have := r.length_rest; simp; omega⟩
    | .openParen => do
      let r ← expression 1 rest
      match h : r.rest with
      | [] => .error .unexpectedEnd
      | closing :: after =>
        match closing.token with
        | .closeParen =>
          return ⟨r.tree, after, by
            have := r.length_rest; rw [h] at this; simp at this ⊢; omega⟩
        | _ => .error closing.unexpected
    | _ => .error l.unexpected
termination_by (ts.length, 0)

/-- The expression of joints of at least the given level at the head of the tokens. -/
def expression (level : Nat) (ts : List Lexeme) :
    Except SyntaxError (Reading (ts.length - 1)) := do
  let first ← operand ts
  let whole ← continuation level first.tree first.rest
  return whole.weaken first.length_rest
termination_by (ts.length, 2)
decreasing_by
  · exact Prod.Lex.right _ (by decide)
  · have := first.length_rest
    rcases Nat.lt_or_ge first.rest.length ts.length with h | h
    · exact Prod.Lex.left _ _ h
    · have : first.rest.length = ts.length := by omega
      rw [this]; exact Prod.Lex.right _ (by decide)

/-- The joints of at least the given level, and their right operands, after a left operand. -/
def continuation (level : Nat) (left : Tree) (ts : List Lexeme) :
    Except SyntaxError (Reading ts.length) :=
  match ts with
  | [] => .ok ⟨left, [], Nat.le_refl _⟩
  | l :: rest =>
    match l.token.joint? with
    | none => .ok ⟨left, l :: rest, Nat.le_refl _⟩
    | some joint =>
      if joint.level < level then .ok ⟨left, l :: rest, Nat.le_refl _⟩
      else do
        let right ← expression (joint.level + 1) rest
        let whole ← continuation level (joint.join left right.tree) right.rest
        return whole.weaken (by have := right.length_rest; simp; omega)
termination_by (ts.length, 1)
decreasing_by
  · exact Prod.Lex.left _ _ (by simp)
  · have := right.length_rest
    exact Prod.Lex.left _ _ (by simp; omega)

end

/-- The tree of all the tokens. -/
def Tree.ofLexemes (ts : List Lexeme) : Except SyntaxError Tree := do
  let r ← expression 1 ts
  match r.rest with
  | [] => return r.tree
  | l :: _ => .error l.unexpected

end Vigil.Expression

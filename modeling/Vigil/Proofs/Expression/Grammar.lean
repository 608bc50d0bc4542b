import Vigil.Expression.Tree

/-!
# The grammar of expressions

The grammar is written down once more without the parser: which tokens are an expression of a level,
and which tree they have. The left operand of a mark is of the level of the mark and the right one
of a tighter level, so marks of one level group to the left and a tighter mark stands below a looser
one unless parentheses say otherwise. A sign takes what is signed itself, never a joined expression.
-/

namespace Vigil.Expression

/-- The levels of the grammar, from the loosest to the tightest. -/
inductive Level where
  | disjunction
  | conjunction
  | equality
  | order
  | sum
  | product
  | signed
  | operand
  deriving DecidableEq, Repr

/-- The next tighter level; nothing is tighter than an operand. -/
def Level.tighter : Level → Level
  | disjunction => conjunction
  | conjunction => equality
  | equality => order
  | order => sum
  | sum => product
  | product => signed
  | signed | operand => operand

/-- At a level, a mark joins two operands to a tree. -/
inductive Joins : Level → Token → (Tree → Tree → Tree) → Prop where
  | or : Joins .disjunction .or (.connect .or)
  | and : Joins .conjunction .and (.connect .and)
  | equal : Joins .equality .equal (.apply .equal)
  | notEqual : Joins .equality .notEqual (.apply .notEqual)
  | greater : Joins .order .greater (.apply .greater)
  | greaterEqual : Joins .order .greaterEqual (.apply .greaterEqual)
  | less : Joins .order .less (.apply .less)
  | lessEqual : Joins .order .lessEqual (.apply .lessEqual)
  | add : Joins .sum .plus (.apply .add)
  | sub : Joins .sum .minus (.apply .sub)
  | mul : Joins .product .star (.apply .mul)
  | div : Joins .product .slash (.apply .div)
  | rem : Joins .product .percent (.apply .rem)

/-- The tokens are an expression of a level, and this is its tree. -/
inductive Derives : Level → List Token → Tree → Prop where
  | tighter {level : Level} {ts : List Token} {tree : Tree} (h : Derives level.tighter ts tree) :
      Derives level ts tree
  | joined {level : Level} {mark : Token} {combine : Tree → Tree → Tree} {ls rs : List Token}
      {left right : Tree} (hmark : Joins level mark combine) (hleft : Derives level ls left)
      (hright : Derives level.tighter rs right) :
      Derives level (ls ++ mark :: rs) (combine left right)
  | negate {ts : List Token} {tree : Tree} (h : Derives .signed ts tree) :
      Derives .signed (.minus :: ts) (.negate tree)
  | not {ts : List Token} {tree : Tree} (h : Derives .signed ts tree) :
      Derives .signed (.bang :: ts) (.not tree)
  | number (value : Float) : Derives .operand [.number value] (.number value)
  | yes : Derives .operand [.name "true"] (.truth true)
  | no : Derives .operand [.name "false"] (.truth false)
  | named {name : String} (hyes : name ≠ "true") (hno : name ≠ "false") :
      Derives .operand [.name name] (.variable name)
  | group {ts : List Token} {tree : Tree} (h : Derives .disjunction ts tree) :
      Derives .operand (.openParen :: (ts ++ [.closeParen])) tree

def Level.rank : Level → Nat
  | disjunction => 1
  | conjunction => 2
  | equality => 3
  | order => 4
  | sum => 5
  | product => 6
  | signed => 7
  | operand => 8

theorem Level.rank_le (level : Level) : level.rank ≤ 8 := by
  cases level <;> decide

theorem Level.rank_injective {a b : Level} (h : a.rank = b.rank) : a = b := by
  cases a <;> cases b <;> first | rfl | cases h

theorem Level.rank_tighter {level : Level} (h : level ≠ .operand) :
    level.tighter.rank = level.rank + 1 := by
  cases level <;> first | rfl | exact absurd rfl h

theorem Level.rank_le_tighter (level : Level) : level.rank ≤ level.tighter.rank := by
  cases level <;> decide

/-- An expression of a tighter level is one of any looser level. -/
theorem Derives.loosen {a b : Level} {ts : List Token} {tree : Tree} (h : Derives b ts tree)
    (hle : a.rank ≤ b.rank) : Derives a ts tree := by
  generalize hgap : b.rank - a.rank = gap
  induction gap generalizing a with
  | zero =>
    rw [Level.rank_injective (show a.rank = b.rank by omega)]
    exact h
  | succ gap ih =>
    have hne : a ≠ .operand := by
      rintro rfl
      have hle := b.rank_le
      have hmost : Level.operand.rank = 8 := rfl
      omega
    have hnext := Level.rank_tighter hne
    exact .tighter (ih (by omega) (by omega))

/-- A name is an operand, be it a truth value or a variable. -/
theorem derives_name (name : String) : Derives .operand [.name name] (.ofName name) := by
  unfold Tree.ofName
  split
  · rename_i h
    subst h
    exact .yes
  · rename_i hyes
    split
    · rename_i h
      subst h
      exact .no
    · rename_i hno
      exact .named hyes hno

theorem Joins.joint {level : Level} {mark : Token} {combine : Tree → Tree → Tree}
    (h : Joins level mark combine) :
    ∃ joint, mark.joint? = some joint ∧ joint.level = level.rank ∧ joint.join = combine := by
  cases h <;> exact ⟨_, rfl, rfl, rfl⟩

/-- What stands between operands joins them at its own level, and a sign is tighter still. -/
theorem exists_joins {mark : Token} {joint : Joint} (h : mark.joint? = some joint) :
    ∃ level, Joins level mark joint.join ∧ level.rank = joint.level ∧
      level.tighter.rank = joint.level + 1 := by
  cases mark <;> cases h
  case plus => exact ⟨.sum, .add, rfl, rfl⟩
  case minus => exact ⟨.sum, .sub, rfl, rfl⟩
  case star => exact ⟨.product, .mul, rfl, rfl⟩
  case slash => exact ⟨.product, .div, rfl, rfl⟩
  case percent => exact ⟨.product, .rem, rfl, rfl⟩
  case greater => exact ⟨.order, .greater, rfl, rfl⟩
  case greaterEqual => exact ⟨.order, .greaterEqual, rfl, rfl⟩
  case less => exact ⟨.order, .less, rfl, rfl⟩
  case lessEqual => exact ⟨.order, .lessEqual, rfl, rfl⟩
  case equal => exact ⟨.equality, .equal, rfl, rfl⟩
  case notEqual => exact ⟨.equality, .notEqual, rfl, rfl⟩
  case and => exact ⟨.conjunction, .and, rfl, rfl⟩
  case or => exact ⟨.disjunction, .or, rfl, rfl⟩

theorem Joins.rank_le {level : Level} {mark : Token} {combine : Tree → Tree → Tree}
    (h : Joins level mark combine) : level.rank ≤ 6 := by
  cases h <;> decide

theorem Joins.rank_tighter {level : Level} {mark : Token} {combine : Tree → Tree → Tree}
    (h : Joins level mark combine) : level.tighter.rank = level.rank + 1 := by
  cases h <;> rfl

end Vigil.Expression

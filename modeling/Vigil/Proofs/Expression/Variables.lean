import Vigil.Expression
import Vigil.Proofs.Expression.Grammar
import Vigil.Proofs.Named

/-!
# Variables of an expression

The variables of a tree are the names among its tokens, from left to right, but for the two truth values.
An evaluation asks for no other name, so it misses none that has a value.
-/

namespace Vigil.Expression

def Token.asVariable : Token → Option String
  | .name text => if text = "true" ∨ text = "false" then none else some text
  | _ => none

/-- What stands between operands is no variable. -/
theorem Joins.asVariable_eq_none {level : Level} {mark : Token} {combine : Tree → Tree → Tree}
    (h : Joins level mark combine) : mark.asVariable = none := by
  cases h <;> rfl

theorem Joins.names {level : Level} {mark : Token} {combine : Tree → Tree → Tree}
    (h : Joins level mark combine) (left right : Tree) :
    (combine left right).names = left.names ++ right.names := by
  cases h <;> rfl

/-- The variables of a tree are those of its tokens. -/
theorem names_of_derives {level : Level} {ts : List Token} {tree : Tree}
    (h : Derives level ts tree) : tree.names = ts.filterMap Token.asVariable := by
  induction h with
  | tighter _ ih => exact ih
  | joined hmark _ _ ihleft ihright =>
    rw [hmark.names, ihleft, ihright, List.filterMap_append,
      List.filterMap_cons_none hmark.asVariable_eq_none]
  | negate _ ih => rw [Tree.names, ih, List.filterMap_cons_none rfl]
  | not _ ih => rw [Tree.names, ih, List.filterMap_cons_none rfl]
  | number value => rfl
  | yes => rfl
  | no => rfl
  | named hyes hno =>
    have hvariable : Token.asVariable (.name _) = some _ := if_neg (not_or.mpr ⟨hyes, hno⟩)
    rw [List.filterMap_cons_some hvariable]
    rfl
  | group _ ih =>
    rw [ih, List.filterMap_cons_none rfl, List.filterMap_append, List.filterMap_cons_none rfl,
      List.filterMap_nil, List.append_nil]

theorem mem_names_iff {e : Expression} {name : String} : name ∈ e.names ↔ name ∈ e.tree.names := by
  rw [names, Named.mem_names_ofList, List.map_map]
  exact List.mem_map.trans ⟨fun ⟨_, hmem, heq⟩ => heq ▸ hmem, fun hmem => ⟨name, hmem, rfl⟩⟩

section Unknown

variable {lookup : String → Option Float} {name : String}

theorem Outcome.error_of_andThen {o : Outcome} {next : Value → Outcome} {cause : EvaluationError}
    (h : (o.andThen next).2 = .error cause) :
    o.2 = .error cause ∨ ∃ v, (next v).2 = .error cause := by
  obtain ⟨asked, result⟩ := o
  cases result with
  | error e => exact .inl h
  | ok v => exact .inr ⟨v, h⟩

theorem Value.known_of_negate (v : Value) : v.negate ≠ .error (.unknownVariable name) := by
  cases v <;> exact nofun

theorem Value.known_of_not (v : Value) : v.not ≠ .error (.unknownVariable name) := by
  cases v <;> exact nofun

theorem Operator.known_of_evaluate (op : Operator) (a b : Value) :
    op.evaluate a b ≠ .error (.unknownVariable name) := by
  cases a <;> cases b <;> cases op <;> exact nofun

theorem Connective.known_of_operand {op : Connective} {a : Value} {cause : EvaluationError}
    (h : op.operand a = .error cause) : cause ≠ .unknownVariable name := by
  cases a with
  | number x =>
    cases h
    exact nofun
  | truth b => cases h

/-- An unknown variable stands in the tree and has no value. -/
theorem Tree.unknown_of_run {t : Tree}
    (h : (t.run lookup).2 = .error (.unknownVariable name)) :
    name ∈ t.names ∧ lookup name = none := by
  induction t with
  | number value => cases h
  | truth value => cases h
  | «variable» other =>
    rw [run] at h
    dsimp only at h
    split at h
    · cases h
    · rename_i hnone
      cases h
      exact ⟨List.mem_singleton_self _, hnone⟩
  | negate operand ih =>
    rcases Outcome.error_of_andThen h with h | ⟨v, h⟩
    · exact ih h
    · exact absurd h v.known_of_negate
  | not operand ih =>
    rcases Outcome.error_of_andThen h with h | ⟨v, h⟩
    · exact ih h
    · exact absurd h v.known_of_not
  | apply op left right ihleft ihright =>
    rcases Outcome.error_of_andThen h with h | ⟨a, h⟩
    · exact (ihleft h).imp_left (List.mem_append_left _)
    · rcases Outcome.error_of_andThen h with h | ⟨b, h⟩
      · exact (ihright h).imp_left (List.mem_append_right _)
      · exact absurd h (op.known_of_evaluate a b)
  | connect op left right ihleft ihright =>
    rcases Outcome.error_of_andThen h with h | ⟨a, h⟩
    · exact (ihleft h).imp_left (List.mem_append_left _)
    · split at h
      · rename_i cause hcause
        exact absurd (Except.error.inj h) (Connective.known_of_operand hcause)
      · split at h
        · cases h
        · rcases Outcome.error_of_andThen h with h | ⟨c, h⟩
          · exact (ihright h).imp_left (List.mem_append_right _)
          · dsimp only at h
            cases hoperand : op.operand c with
            | ok b =>
              rw [hoperand] at h
              cases h
            | error cause =>
              rw [hoperand] at h
              exact absurd (Except.error.inj h) (Connective.known_of_operand hoperand)

theorem unknown_of_evaluateBool {e : Expression}
    (h : e.evaluateBool lookup = .error (.unknownVariable name)) :
    name ∈ e.names ∧ lookup name = none := by
  rw [mem_names_iff]
  apply Tree.unknown_of_run
  unfold evaluateBool Tree.evaluateBool Tree.evaluate at h
  cases hresult : (e.tree.run lookup).2 with
  | error cause =>
    rw [hresult] at h
    exact congrArg Except.error (Except.error.inj h)
  | ok v =>
    rw [hresult] at h
    cases v <;> cases h

end Unknown

end Vigil.Expression

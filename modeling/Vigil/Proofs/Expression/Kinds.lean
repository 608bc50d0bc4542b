import Vigil.Proofs.Expression.Variables

/-!
# Kinds of trees

Numbers and variables are of the kind of numbers, and every mark asks for operands of certain kinds. A
tree that has a kind evaluates to a value of it as soon as its variables are known. The other way round
a connective may hide an operand without a kind, as it does not always look at its right operand; a tree
without connectives hides nothing, so it has a kind if it ever has a value. No evaluation asks for the
value of a connective on two numbers.
-/

namespace Vigil.Expression

/-- The kind of the value of an operator on two operands of one kind. -/
def Operator.kind? : Operator → Kind → Option Kind
  | .add, .number | .sub, .number | .mul, .number | .div, .number | .rem, .number => some .number
  | .greater, .number | .greaterEqual, .number | .less, .number | .lessEqual, .number => some .truth
  | .equal, _ | .notEqual, _ => some .truth
  | _, .truth => none

/-- A tree has a kind when its operands have the kinds that its mark asks for. -/
inductive Tree.HasKind : Tree → Kind → Prop where
  | number (value : Float) : HasKind (.number value) .number
  | truth (value : Bool) : HasKind (.truth value) .truth
  | variable (name : String) : HasKind (.variable name) .number
  | negate {operand : Tree} (h : HasKind operand .number) : HasKind (.negate operand) .number
  | not {operand : Tree} (h : HasKind operand .truth) : HasKind (.not operand) .truth
  | apply {op : Operator} {left right : Tree} {operands kind : Kind}
      (hop : op.kind? operands = some kind) (hleft : HasKind left operands)
      (hright : HasKind right operands) : HasKind (.apply op left right) kind
  | connect {op : Connective} {left right : Tree} (hleft : HasKind left .truth)
      (hright : HasKind right .truth) : HasKind (.connect op left right) .truth

def Tree.kind? : Tree → Option Kind
  | .number _ | .variable _ => some .number
  | .truth _ => some .truth
  | .negate operand => if operand.kind? = some .number then some .number else none
  | .not operand => if operand.kind? = some .truth then some .truth else none
  | .apply op left right =>
    left.kind?.bind fun kind => if right.kind? = some kind then op.kind? kind else none
  | .connect _ left right =>
    if left.kind? = some .truth ∧ right.kind? = some .truth then some .truth else none

def Tree.isPlain : Tree → Bool
  | .number _ | .truth _ | .variable _ => true
  | .negate operand | .not operand => operand.isPlain
  | .apply _ left right => left.isPlain && right.isPlain
  | .connect _ _ _ => false

theorem Tree.HasKind.kind?_eq {t : Tree} {kind : Kind} (h : t.HasKind kind) :
    t.kind? = some kind := by
  induction h with
  | number value => rfl
  | truth value => rfl
  | «variable» name => rfl
  | negate _ ih => rw [Tree.kind?, if_pos ih]
  | not _ ih => rw [Tree.kind?, if_pos ih]
  | apply hop _ _ ihleft ihright => rw [Tree.kind?, ihleft, Option.bind_some, if_pos ihright, hop]
  | connect _ _ ihleft ihright => rw [Tree.kind?, if_pos ⟨ihleft, ihright⟩]

theorem Tree.hasKind_of_kind? {t : Tree} {kind : Kind} (h : t.kind? = some kind) :
    t.HasKind kind := by
  induction t generalizing kind with
  | number value =>
    cases h
    exact .number value
  | truth value =>
    cases h
    exact .truth value
  | «variable» name =>
    cases h
    exact .variable name
  | negate operand ih =>
    obtain ⟨hoperand, ⟨⟩⟩ := Option.ite_none_right_eq_some.mp h
    exact .negate (ih hoperand)
  | not operand ih =>
    obtain ⟨hoperand, ⟨⟩⟩ := Option.ite_none_right_eq_some.mp h
    exact .not (ih hoperand)
  | apply op left right ihleft ihright =>
    obtain ⟨operands, hleft, h⟩ := Option.bind_eq_some_iff.mp h
    obtain ⟨hright, hop⟩ := Option.ite_none_right_eq_some.mp h
    exact .apply hop (ihleft hleft) (ihright hright)
  | connect op left right ihleft ihright =>
    obtain ⟨⟨hleft, hright⟩, ⟨⟩⟩ := Option.ite_none_right_eq_some.mp h
    exact .connect (ihleft hleft) (ihright hright)

theorem Tree.hasKind_iff {t : Tree} {kind : Kind} : t.HasKind kind ↔ t.kind? = some kind :=
  ⟨HasKind.kind?_eq, hasKind_of_kind?⟩

instance (t : Tree) (kind : Kind) : Decidable (t.HasKind kind) :=
  decidable_of_iff _ Tree.hasKind_iff.symm

section Steps

variable {o : Outcome} {next : Value → Outcome} {a b v : Value} {kind : Kind}

theorem Outcome.andThen_eq_ok_iff :
    (o.andThen next).2 = .ok v ↔ ∃ a, o.2 = .ok a ∧ (next a).2 = .ok v := by
  obtain ⟨asked, result⟩ := o
  cases result with
  | error cause => exact ⟨nofun, fun ⟨_, hvalue, _⟩ => nomatch hvalue⟩
  | ok a =>
    constructor
    · exact fun h => ⟨a, rfl, h⟩
    · rintro ⟨_, ⟨⟩, h⟩
      exact h

/-- An operator has a value on two values of one kind that it takes, and on no others. -/
theorem Operator.evaluate_ok_iff {op : Operator} :
    (∃ v, op.evaluate a b = .ok v ∧ v.kind = kind) ↔
      b.kind = a.kind ∧ op.kind? a.kind = some kind := by
  cases a <;> cases b <;> cases op <;>
    simp [evaluate, onNumbers, kind?, Value.kind]

theorem Value.negate_ok_iff :
    (∃ v, a.negate = .ok v ∧ v.kind = kind) ↔ a.kind = .number ∧ kind = .number := by
  cases a <;> simp [negate, Value.kind, eq_comm]

theorem Value.not_ok_iff :
    (∃ v, a.not = .ok v ∧ v.kind = kind) ↔ a.kind = .truth ∧ kind = .truth := by
  cases a <;> simp [Value.not, Value.kind, eq_comm]

theorem Connective.exists_operand (op : Connective) (h : a.kind = .truth) :
    ∃ b, op.operand a = .ok b := by
  cases a with
  | number x => cases h
  | truth b => exact ⟨b, rfl⟩

end Steps

section Trees

variable {t : Tree} {kind : Kind} {lookup : String → Option Float} {v : Value}

/-- A tree of a kind has a value of it when its variables are known. -/
theorem Tree.HasKind.exists_value (h : t.HasKind kind)
    (hknown : ∀ name ∈ t.names, (lookup name).isSome = true) :
    ∃ v, (t.run lookup).2 = .ok v ∧ v.kind = kind := by
  induction h with
  | number value => exact ⟨_, rfl, rfl⟩
  | truth value => exact ⟨_, rfl, rfl⟩
  | «variable» name =>
    obtain ⟨x, hx⟩ := Option.isSome_iff_exists.mp (hknown name (List.mem_singleton_self name))
    exact ⟨.number x, by rw [Tree.run, hx], rfl⟩
  | negate _ ih =>
    obtain ⟨a, ha, hkind⟩ := ih hknown
    obtain ⟨v, hv, hvalue⟩ := Value.negate_ok_iff.mpr ⟨hkind, rfl⟩
    exact ⟨v, Outcome.andThen_eq_ok_iff.mpr ⟨a, ha, hv⟩, hvalue⟩
  | not _ ih =>
    obtain ⟨a, ha, hkind⟩ := ih hknown
    obtain ⟨v, hv, hvalue⟩ := Value.not_ok_iff.mpr ⟨hkind, rfl⟩
    exact ⟨v, Outcome.andThen_eq_ok_iff.mpr ⟨a, ha, hv⟩, hvalue⟩
  | apply hop _ _ ihleft ihright =>
    obtain ⟨a, ha, hkind⟩ := ihleft fun name hname => hknown name (List.mem_append_left _ hname)
    obtain ⟨b, hb, hsame⟩ := ihright fun name hname => hknown name (List.mem_append_right _ hname)
    obtain ⟨v, hv, hvalue⟩ :=
      Operator.evaluate_ok_iff.mpr ⟨hsame.trans hkind.symm, by rw [hkind, hop]⟩
    refine ⟨v, Outcome.andThen_eq_ok_iff.mpr ⟨a, ha, ?_⟩, hvalue⟩
    exact Outcome.andThen_eq_ok_iff.mpr ⟨b, hb, hv⟩
  | @connect op left right _ _ ihleft ihright =>
    obtain ⟨a, ha, hkind⟩ := ihleft fun name hname => hknown name (List.mem_append_left _ hname)
    obtain ⟨c, hc, hsame⟩ := ihright fun name hname => hknown name (List.mem_append_right _ hname)
    obtain ⟨first, hfirst⟩ := op.exists_operand hkind
    obtain ⟨second, hsecond⟩ := op.exists_operand hsame
    by_cases hdecides : op.decides first = true
    · refine ⟨.truth first, Outcome.andThen_eq_ok_iff.mpr ⟨a, ha, ?_⟩, rfl⟩
      simp only [hfirst, if_pos hdecides]
    · refine ⟨.truth second, Outcome.andThen_eq_ok_iff.mpr ⟨a, ha, ?_⟩, rfl⟩
      simp only [hfirst, if_neg hdecides]
      exact Outcome.andThen_eq_ok_iff.mpr ⟨c, hc, by rw [hsecond]; rfl⟩

/-- A value of a tree without connectives shows the kind of the tree. -/
theorem Tree.hasKind_of_run (hplain : t.isPlain = true) (h : (t.run lookup).2 = .ok v) :
    t.HasKind v.kind := by
  induction t generalizing v with
  | number value =>
    cases h
    exact .number value
  | truth value =>
    cases h
    exact .truth value
  | «variable» name =>
    rw [run] at h
    dsimp only at h
    split at h
    · cases h
      exact .variable name
    · cases h
  | negate operand ih =>
    obtain ⟨a, ha, hv⟩ := Outcome.andThen_eq_ok_iff.mp h
    obtain ⟨hkind, hvalue⟩ := Value.negate_ok_iff.mp ⟨v, hv, rfl⟩
    rw [hvalue]
    exact .negate (hkind ▸ ih hplain ha)
  | not operand ih =>
    obtain ⟨a, ha, hv⟩ := Outcome.andThen_eq_ok_iff.mp h
    obtain ⟨hkind, hvalue⟩ := Value.not_ok_iff.mp ⟨v, hv, rfl⟩
    rw [hvalue]
    exact .not (hkind ▸ ih hplain ha)
  | apply op left right ihleft ihright =>
    obtain ⟨hleft, hright⟩ := Bool.and_eq_true_iff.mp hplain
    obtain ⟨a, ha, h⟩ := Outcome.andThen_eq_ok_iff.mp h
    obtain ⟨b, hb, hv⟩ := Outcome.andThen_eq_ok_iff.mp h
    obtain ⟨hsame, hop⟩ := Operator.evaluate_ok_iff.mp ⟨v, hv, rfl⟩
    exact .apply hop (ihleft hleft ha) (hsame ▸ ihright hright hb)
  | connect op left right _ _ => cases hplain

end Trees

/-- An evaluation that can also break off, with neither a value nor a failure. -/
abbrev Guarded := ExceptT EvaluationError Option

/-- An evaluation that does not break off. -/
def Guarded.settled {α : Type} (result : Except EvaluationError α) : Guarded α :=
  .mk (some result)

/-- Any joint between two values. There is nothing to be done for a connective between two numbers. -/
def Joint.onValues (a b : Value) : Joint → Guarded Value
  | .operator op => .settled (op.evaluate a b)
  | .connective op =>
    match a, b with
    | .number _, .number _ => .mk none
    | _, _ => throw (.typeMismatch op.symbol .truth)

/-- A joint between two evaluations. A connective evaluates its right operand only when it has to; any
other joint takes both values. -/
def Joint.guarded (left right : Guarded Value) : Joint → Guarded Value
  | .connective op => do
    let first ← Guarded.settled (op.operand (← left))
    if op.decides first then return .truth first
    else return .truth (← Guarded.settled (op.operand (← right)))
  | joint => do joint.onValues (← left) (← right)

/-- The evaluation of a tree by its joints. -/
def Tree.guarded (lookup : String → Option Float) : Tree → Guarded Value
  | .number value => return .number value
  | .truth value => return .truth value
  | .variable name =>
    match lookup name with
    | some value => return .number value
    | none => throw (.unknownVariable name)
  | .negate operand => do Guarded.settled (← operand.guarded lookup).negate
  | .not operand => do Guarded.settled (← operand.guarded lookup).not
  | .apply op left right => (Joint.operator op).guarded (left.guarded lookup) (right.guarded lookup)
  | .connect op left right =>
    (Joint.connective op).guarded (left.guarded lookup) (right.guarded lookup)

/-- A connective between two values that it decides on, or that it asks for the second of. -/
theorem Connective.guarded_eq (op : Connective) (left right : Outcome) :
    (Joint.connective op).guarded (.settled left.2) (.settled right.2) =
      .settled (left.andThen fun a =>
        match op.operand a with
        | .error e => ([], .error e)
        | .ok b =>
          if op.decides b then ([], .ok (.truth b))
          else right.andThen fun c => ([], (op.operand c).map .truth)).2 := by
  rcases left with ⟨asked, cause | a⟩
  · rfl
  · cases a with
    | number x => rfl
    | truth b =>
      rcases right with ⟨asked', cause | c⟩
      · cases op <;> cases b <;> rfl
      · cases op <;> cases b <;> cases c <;> rfl

/-- The evaluation never breaks off. -/
theorem Tree.guarded_eq (t : Tree) (lookup : String → Option Float) :
    t.guarded lookup = .settled (t.evaluate lookup) := by
  induction t with
  | number value => rfl
  | truth value => rfl
  | «variable» name =>
    rw [guarded, evaluate, run]
    cases lookup name <;> rfl
  | negate operand ih =>
    rw [guarded, ih, evaluate, evaluate, run]
    rcases operand.run lookup with ⟨asked, cause | a⟩ <;> rfl
  | not operand ih =>
    rw [guarded, ih, evaluate, evaluate, run]
    rcases operand.run lookup with ⟨asked, cause | a⟩ <;> rfl
  | apply op left right ihleft ihright =>
    rw [guarded, ihleft, ihright, evaluate, evaluate, evaluate, run]
    rcases left.run lookup with ⟨asked, cause | a⟩
    · rfl
    · rcases right.run lookup with ⟨asked', cause | b⟩ <;> rfl
  | connect op left right ihleft ihright =>
    rw [guarded, ihleft, ihright, evaluate, evaluate, evaluate, run]
    exact op.guarded_eq _ _

theorem evaluateBool_ok_iff {e : Expression} {lookup : String → Option Float} {v : Value}
    (h : e.evaluate lookup = .ok v) : (∃ b, e.evaluateBool lookup = .ok b) ↔ v.kind = .truth := by
  have hvalue : e.evaluateBool lookup =
      match v with
      | .truth b => .ok b
      | .number _ => .error .notBoolean := by
    rw [evaluateBool, Tree.evaluateBool, show e.tree.evaluate lookup = .ok v from h]
    cases v <;> rfl
  rw [hvalue]
  cases v with
  | number x => exact ⟨nofun, nofun⟩
  | truth b => exact ⟨fun _ => rfl, fun _ => ⟨b, rfl⟩⟩

/-- Evaluation keeps to kinds: an expression of a kind has a value of it once its variables are known,
and is a condition exactly if it is of the kind of truth values; without connectives one of no kind never
has a value; and no evaluation breaks off at a connective between two values. -/
theorem evaluation_keeps_kinds (e : Expression) (lookup : String → Option Float) :
    (∀ kind, e.tree.HasKind kind → (∀ name ∈ e.names, (lookup name).isSome = true) →
      (∃ v, e.evaluate lookup = .ok v ∧ v.kind = kind) ∧
      ((∃ b, e.evaluateBool lookup = .ok b) ↔ kind = .truth)) ∧
    (e.tree.isPlain = true → (∀ kind, ¬ e.tree.HasKind kind) →
      ∃ cause, e.evaluate lookup = .error cause) ∧
    e.tree.guarded lookup = .settled (e.evaluate lookup) := by
  refine ⟨fun kind hkind hknown => ?_, fun hplain hnone => ?_, e.tree.guarded_eq lookup⟩
  · obtain ⟨v, hv, rfl⟩ :=
      hkind.exists_value fun name hname => hknown name (mem_names_iff.mpr hname)
    exact ⟨⟨v, hv, rfl⟩, evaluateBool_ok_iff hv⟩
  · cases hresult : e.evaluate lookup with
    | error cause => exact ⟨cause, rfl⟩
    | ok v => exact absurd (Tree.hasKind_of_run hplain hresult) (hnone v.kind)

/-- The expression `!(load > 1) == (load < 2 || false)`. -/
def mildLoad : Expression where
  source := "!(load > 1) == (load < 2 || false)"
  tree := .apply .equal (.not (.apply .greater (.variable "load") (.number 1.0)))
    (.connect .or (.apply .less (.variable "load") (.number 2.0)) (.truth false))

def countedLoad : Expression where
  source := "(load > 1) + 1"
  tree := .apply .add (.apply .greater (.variable "load") (.number 1.0)) (.number 1.0)

def loadOnly (name : String) : Option Float :=
  if name = "load" then some 3.0 else none

/-- A condition on a known variable has a truth value, and a truth value does not count as a number. -/
theorem kinds_of_load :
    (mildLoad.tree.HasKind .truth ∧ (∀ name ∈ mildLoad.names, (loadOnly name).isSome = true) ∧
      ∃ b, mildLoad.evaluateBool loadOnly = .ok b) ∧
    (countedLoad.tree.isPlain = true ∧ (∀ kind, ¬ countedLoad.tree.HasKind kind) ∧
      ∃ cause, countedLoad.evaluate loadOnly = .error cause) := by
  have hkind : mildLoad.tree.HasKind .truth := by decide
  have hknown : ∀ name ∈ mildLoad.names, (loadOnly name).isSome = true := by decide
  have hnone : ∀ kind, ¬ countedLoad.tree.HasKind kind := by
    intro kind
    cases kind <;> decide
  have hcondition := (evaluation_keeps_kinds mildLoad loadOnly).1 .truth hkind hknown
  have hfailure := (evaluation_keeps_kinds countedLoad loadOnly).2.1 rfl hnone
  exact ⟨⟨hkind, hknown, hcondition.2.mpr rfl⟩, rfl, hnone, hfailure⟩

end Vigil.Expression

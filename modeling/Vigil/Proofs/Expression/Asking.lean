import Vigil.Proofs.Expression.Derivation
import Vigil.Proofs.Expression.Segments
import Vigil.Proofs.Expression.Variables

/-!
# What an evaluation asks for

Which variables an evaluation asks for hangs on their values, since a connective may leave its right
operand alone. But it asks for variables of the expression only, and it knows nothing of the others: the
answers to what it asked settle the whole evaluation. So bindings that agree on the variables of an
expression cannot be told apart by it, and these variables are written in its source.
-/

namespace Vigil.Expression

section Outcome

variable {o o' : Outcome} {next next' : Value → Outcome} {name : String}

/-- What follows on a value asks after what came before it. -/
theorem Outcome.mem_asked_andThen :
    name ∈ (o.andThen next).1 ↔ name ∈ o.1 ∨ ∃ v, o.2 = .ok v ∧ name ∈ (next v).1 := by
  obtain ⟨asked, result⟩ := o
  cases result with
  | error cause => exact ⟨.inl, fun h => h.resolve_right (by rintro ⟨v, ⟨⟩, -⟩)⟩
  | ok v =>
    refine List.mem_append.trans (or_congr_right ⟨fun h => ⟨v, rfl, h⟩, ?_⟩)
    rintro ⟨_, ⟨⟩, h⟩
    exact h

theorem Outcome.andThen_congr (h : o' = o) (hnext : ∀ v, o.2 = .ok v → next' v = next v) :
    o'.andThen next' = o.andThen next := by
  subst h
  obtain ⟨asked, result⟩ := o'
  cases result with
  | error cause => rfl
  | ok v =>
    show (asked ++ (next' v).1, (next' v).2) = (asked ++ (next v).1, (next v).2)
    rw [hnext v rfl]

end Outcome

/-- How a connective goes on from the value of its left operand. -/
def Connective.follow (op : Connective) (right : Outcome) (a : Value) : Outcome :=
  match op.operand a with
  | .error e => ([], .error e)
  | .ok b =>
    if op.decides b then ([], .ok (.truth b))
    else right.andThen fun c => ([], (op.operand c).map .truth)

theorem Tree.run_connect (lookup : String → Option Float) (op : Connective) (left right : Tree) :
    (Tree.connect op left right).run lookup =
      (left.run lookup).andThen (op.follow (right.run lookup)) :=
  rfl

/-- Either the right operand does not matter, or all that it asks for is asked. -/
theorem Connective.follow_cases (op : Connective) (a : Value) :
    (∃ result, ∀ right, op.follow right a = ([], result)) ∨
      ∀ right name, name ∈ (op.follow right a).1 ↔ name ∈ right.1 := by
  cases hoperand : op.operand a with
  | error cause =>
    refine .inl ⟨.error cause, fun right => ?_⟩
    rw [follow, hoperand]
  | ok b =>
    by_cases hdecides : op.decides b = true
    · refine .inl ⟨.ok (.truth b), fun right => ?_⟩
      rw [follow, hoperand]
      exact if_pos hdecides
    · refine .inr fun right name => ?_
      rw [follow, hoperand]
      dsimp only
      rw [if_neg hdecides, Outcome.mem_asked_andThen]
      exact or_iff_left (by rintro ⟨_, -, ⟨⟩⟩)

namespace Tree

variable {lookup other : String → Option Float} {t : Tree} {name : String}

/-- An evaluation asks for variables of the tree only. -/
theorem mem_names_of_mem_lookups (h : name ∈ t.lookups lookup) : name ∈ t.names := by
  unfold lookups at h
  induction t with
  | number value => cases h
  | truth value => cases h
  | «variable» asked => exact h
  | negate operand ih =>
    rcases Outcome.mem_asked_andThen.mp h with h | ⟨v, -, ⟨⟩⟩
    exact ih h
  | not operand ih =>
    rcases Outcome.mem_asked_andThen.mp h with h | ⟨v, -, ⟨⟩⟩
    exact ih h
  | apply op left right ihleft ihright =>
    rcases Outcome.mem_asked_andThen.mp h with h | ⟨a, -, h⟩
    · exact List.mem_append_left _ (ihleft h)
    · rcases Outcome.mem_asked_andThen.mp h with h | ⟨b, -, ⟨⟩⟩
      exact List.mem_append_right _ (ihright h)
  | connect op left right ihleft ihright =>
    rw [run_connect] at h
    rcases Outcome.mem_asked_andThen.mp h with h | ⟨a, -, h⟩
    · exact List.mem_append_left _ (ihleft h)
    · rcases op.follow_cases a with ⟨result, hsettled⟩ | hasks
      · rw [hsettled] at h
        cases h
      · exact List.mem_append_right _ (ihright ((hasks _ _).mp h))

/-- The answers to what an evaluation asked settle all of it. -/
theorem run_congr (h : ∀ name ∈ t.lookups lookup, other name = lookup name) :
    t.run other = t.run lookup := by
  unfold lookups at h
  induction t with
  | number value => rfl
  | truth value => rfl
  | «variable» name =>
    rw [run, run, h name (List.mem_singleton_self name)]
  | negate operand ih =>
    refine Outcome.andThen_congr (ih fun name hname => h name ?_) fun _ _ => rfl
    exact Outcome.mem_asked_andThen.mpr (.inl hname)
  | not operand ih =>
    refine Outcome.andThen_congr (ih fun name hname => h name ?_) fun _ _ => rfl
    exact Outcome.mem_asked_andThen.mpr (.inl hname)
  | apply op left right ihleft ihright =>
    refine Outcome.andThen_congr (ihleft fun name hname => h name ?_) fun a ha => ?_
    · exact Outcome.mem_asked_andThen.mpr (.inl hname)
    · refine Outcome.andThen_congr (ihright fun name hname => h name ?_) fun _ _ => rfl
      exact Outcome.mem_asked_andThen.mpr
        (.inr ⟨a, ha, Outcome.mem_asked_andThen.mpr (.inl hname)⟩)
  | connect op left right ihleft ihright =>
    rw [run_connect] at h ⊢
    rw [run_connect]
    refine Outcome.andThen_congr (ihleft fun name hname => h name ?_) fun a ha => ?_
    · exact Outcome.mem_asked_andThen.mpr (.inl hname)
    · rcases op.follow_cases a with ⟨result, hsettled⟩ | hasks
      · rw [hsettled, hsettled]
      · rw [ihright fun name hname => h name ?_]
        exact Outcome.mem_asked_andThen.mpr (.inr ⟨a, ha, (hasks _ _).mpr hname⟩)

end Tree

/-- A variable of an expression is the word of one of its tokens. -/
theorem exists_lexeme_of_mem_names {source name : String} {e : Expression}
    (h : compile source = .ok e) (hname : name ∈ e.names) :
    name ≠ "true" ∧ name ≠ "false" ∧ ∃ ls l, lexemes source = .ok ls ∧ l ∈ ls ∧ l.token = .name name := by
  obtain ⟨ls, hls, h⟩ := bind_eq_ok_iff.mp h
  obtain ⟨tree, htree, h⟩ := bind_eq_ok_iff.mp h
  cases h
  rw [mem_names_iff, names_of_derives (ofLexemes_eq_ok_iff.mp htree), List.mem_filterMap] at hname
  obtain ⟨token, htoken, hvariable⟩ := hname
  obtain ⟨l, hl, rfl⟩ := List.mem_map.mp htoken
  cases hkind : l.token with
  | name text =>
    rw [hkind, Token.asVariable] at hvariable
    split at hvariable
    · cases hvariable
    · rename_i hplain
      cases hvariable
      obtain ⟨hyes, hno⟩ := not_or.mp hplain
      exact ⟨hyes, hno, ls, l, hls, hl, hkind⟩
  | _ =>
    rw [hkind] at hvariable
    cases hvariable

/-- Evaluation sees the variables of the expression and nothing else: they are names in the source, it
asks for none but them, bindings that agree on what it asks for give one and the same evaluation, and only
a variable without a value makes it fail as unknown. -/
theorem evaluation_sees_variables {source : String} {e : Expression} (h : compile source = .ok e) :
    (∀ lookup, ∀ name ∈ e.tree.lookups lookup, name ∈ e.names) ∧
    (∀ name ∈ e.names, name ≠ "true" ∧ name ≠ "false" ∧ ∃ (ls : List Lexeme) (before after : String),
      lexemes source = .ok ls ∧ source = before ++ name ++ after ∧
        ⟨.name name, before.utf8ByteSize⟩ ∈ ls) ∧
    (∀ lookup other, (∀ name ∈ e.tree.lookups lookup, other name = lookup name) →
      e.tree.run other = e.tree.run lookup) ∧
    (∀ lookup other, (∀ name ∈ e.names, other name = lookup name) →
      e.evaluate other = e.evaluate lookup ∧ e.evaluateBool other = e.evaluateBool lookup) ∧
    (∀ lookup name, e.evaluate lookup = .error (.unknownVariable name) ∨
        e.evaluateBool lookup = .error (.unknownVariable name) →
      name ∈ e.names ∧ lookup name = none) ∧
    ∀ lookup, (∀ name ∈ e.names, (lookup name).isSome = true) → ∀ name,
      e.evaluate lookup ≠ .error (.unknownVariable name) ∧
        e.evaluateBool lookup ≠ .error (.unknownVariable name) := by
  have hasked : ∀ lookup, ∀ name ∈ e.tree.lookups lookup, name ∈ e.names := fun lookup name hname =>
    mem_names_iff.mpr (Tree.mem_names_of_mem_lookups hname)
  have hunknown : ∀ lookup name, e.evaluate lookup = .error (.unknownVariable name) ∨
      e.evaluateBool lookup = .error (.unknownVariable name) → name ∈ e.names ∧ lookup name = none := by
    rintro lookup name (hfail | hfail)
    · exact (Tree.unknown_of_run hfail).imp_left mem_names_iff.mpr
    · exact unknown_of_evaluateBool hfail
  refine ⟨hasked, ?_, fun lookup other hagree => Tree.run_congr hagree, ?_, hunknown, ?_⟩
  · intro name hname
    obtain ⟨hyes, hno, ls, l, hls, hl, htoken⟩ := exists_lexeme_of_mem_names h hname
    obtain ⟨front, pieces, hconsists⟩ := exists_consists hls
    rw [String.ofList_toList] at hconsists
    obtain ⟨before, word, after, hsource, hposition, hword⟩ := hconsists.exists_occurrence hl
    rw [htoken] at hword
    obtain rfl : word = name := hword.spelt
    rw [Nat.zero_add] at hposition
    refine ⟨hyes, hno, ls, before, after, hls, hsource, ?_⟩
    rw [← htoken, ← hposition]
    exact hl
  · intro lookup other hagree
    have hrun : e.tree.run other = e.tree.run lookup :=
      Tree.run_congr fun name hname => hagree name (hasked lookup name hname)
    have hvalue : e.tree.evaluate other = e.tree.evaluate lookup := congrArg Prod.snd hrun
    exact ⟨hvalue, by rw [evaluateBool, evaluateBool, Tree.evaluateBool, Tree.evaluateBool, hvalue]⟩
  · intro lookup hknown name
    have hnever : ¬ (name ∈ e.names ∧ lookup name = none) := by
      rintro ⟨hname, hnone⟩
      have hsome := hknown name hname
      rw [hnone] at hsome
      cases hsome
    exact ⟨fun hfail => hnever (hunknown lookup name (.inl hfail)),
      fun hfail => hnever (hunknown lookup name (.inr hfail))⟩

/-- The expression `true||b`. -/
def settledChoice : Expression where
  source := "true||b"
  tree := .connect .or (.truth true) (.variable "b")

/-- A choice that its left side settles asks for nothing, so no binding of its variable matters. -/
theorem settledChoice_asks_nothing :
    compile "true||b" = .ok settledChoice ∧ settledChoice.names = ["b"] ∧
    settledChoice.tree.lookups (fun _ => none) = [] ∧
    (∃ (ls : List Lexeme) (before after : String), lexemes "true||b" = .ok ls ∧
      "true||b" = before ++ "b" ++ after ∧ ⟨.name "b", before.utf8ByteSize⟩ ∈ ls) ∧
    ∀ other, settledChoice.tree.run other = ([], .ok (.truth true)) := by
  have hlexemes : lexemes "true||b" = .ok [⟨.name "true", 0⟩, ⟨.or, 4⟩, ⟨.name "b", 6⟩] := by
    show lexemesFrom 0 ['t', 'r', 'u', 'e', '|', '|', 'b'] = _
    repeat refine lexemesFrom_eq_ok rfl rfl ?_
    exact lexemesFrom_nil _
  have hleft : Derives .disjunction [.name "true"] (.truth true) := Derives.yes.loosen (by decide)
  have hright : Derives .conjunction [.name "b"] (.variable "b") :=
    (Derives.named (by decide) (by decide)).loosen (by decide)
  have htree : Tree.ofLexemes [⟨.name "true", 0⟩, ⟨.or, 4⟩, ⟨.name "b", 6⟩] = .ok settledChoice.tree :=
    ofLexemes_eq_ok_iff.mpr (Derives.joined .or hleft hright)
  have hcompile : compile "true||b" = .ok settledChoice := by
    rw [compile_of_lexemes hlexemes, htree]
    rfl
  obtain ⟨-, hwritten, hasked, -⟩ := evaluation_sees_variables hcompile
  have hnames : settledChoice.names = ["b"] := by decide
  obtain ⟨-, -, hplace⟩ := hwritten "b" (hnames ▸ List.mem_singleton_self "b")
  exact ⟨hcompile, hnames, rfl, hplace, fun other => hasked (fun _ => none) other (by rintro _ ⟨⟩)⟩

end Vigil.Expression

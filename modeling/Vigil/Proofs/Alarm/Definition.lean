import Vigil.Alarm.Draft
import Vigil.Proofs.Condition.Found

/-!
# What a definition guarantees

An alarm that is made of a definition has an interval and a trigger within bounds, and a condition
with at least one filter, whose filters name known functions, have identifiers of their own, and whose
expression compiles.
-/

namespace Vigil

/-- The bounds that a definition is held to. -/
structure Alarm.Sound (a : Alarm) : Prop where
  interval : ∃ seconds, 1 ≤ seconds ∧ seconds ≤ Draft.maxInterval ∧ a.runInterval = .ofSeconds seconds
  one_le_trigger : 1 ≤ a.rule.trigger
  trigger_le : a.rule.trigger ≤ maxPointsCap
  filters_ne_nil : a.rule.filters ≠ []
  nodup_identifiers : (a.rule.filters.map Filter.identifier).Nodup
  valid : ∀ f ∈ a.rule.filters, f.validate = .ok ()
  compiles : ∃ e, a.expression = .ok e

namespace Condition

variable {input : String} {c : Condition}

theorem pairwise_of_clash? {earlier filters : List Filter} (h : clash? earlier filters = none)
    (hearlier : earlier.Pairwise fun f g => f.identifier ≠ g.identifier) :
    (earlier ++ filters).Pairwise fun f g => f.identifier ≠ g.identifier := by
  induction filters generalizing earlier with
  | nil => rwa [List.append_nil]
  | cons f rest ih =>
    rw [clash?] at h
    split at h
    · cases h
    · rename_i hnone
      have hmore : (earlier ++ [f]).Pairwise fun f g => f.identifier ≠ g.identifier := by
        refine List.pairwise_append.mpr ⟨hearlier, List.pairwise_singleton _ _, ?_⟩
        intro e he g hg
        rw [List.mem_singleton.mp hg]
        simpa using List.find?_eq_none.mp hnone e he
      have hall := ih h hmore
      rwa [List.append_assoc, List.singleton_append] at hall

theorem nodup_of_clash? {filters : List Filter} (h : clash? [] filters = none) :
    (filters.map Filter.identifier).Nodup :=
  List.pairwise_map.mpr (pairwise_of_clash? h .nil)

/-- A condition has filters, and each has an identifier of its own. -/
theorem filters_of_parse (h : parse input = .ok c) :
    c.filters ≠ [] ∧ (c.filters.map Filter.identifier).Nodup := by
  obtain ⟨-, hsome, hclash, -⟩ := parse_eq_ok_iff.mp h
  exact ⟨hsome, nodup_of_clash? hclash⟩

end Condition

/-- A rule is made of a condition that can be read, with known functions and an expression that
compiles. -/
theorem Draft.rule_eq_ok_iff {d : Draft} {rule : Rule} {e : Expression} : d.rule = .ok (rule, e) ↔
    ∃ c, Condition.parse d.condition = .ok c ∧ c.filters.forM Filter.validate = .ok () ∧
      Expression.compile c.expression = .ok e ∧ rule = ⟨c.filters, c.expression, d.trigger⟩ := by
  unfold Draft.rule
  constructor
  · intro h
    obtain ⟨c, hparse, h⟩ := bind_eq_ok_iff.mp h
    obtain ⟨⟨⟩, hvalid, h⟩ := bind_eq_ok_iff.mp h
    split at h
    · cases h
    · rename_i hcompile
      cases h
      exact ⟨c, hparse, hvalid, hcompile, rfl⟩
  · rintro ⟨c, hparse, hvalid, hcompile, rfl⟩
    refine bind_eq_ok_iff.mpr ⟨c, hparse, bind_eq_ok_iff.mpr ⟨(), hvalid, ?_⟩⟩
    rw [hcompile]
    rfl

/-- A rule has the filters of its condition, all of which name known functions. -/
theorem Draft.filters_of_rule {d : Draft} {rule : Rule} {e : Expression} (h : d.rule = .ok (rule, e)) :
    rule.filters ≠ [] ∧ (rule.filters.map Filter.identifier).Nodup ∧
      (∀ f ∈ rule.filters, f.validate = .ok ()) ∧ rule.trigger = d.trigger := by
  obtain ⟨c, hparse, hvalid, -, rfl⟩ := rule_eq_ok_iff.mp h
  obtain ⟨hne, hids⟩ := Condition.filters_of_parse hparse
  exact ⟨hne, hids, eq_ok_of_forM hvalid, rfl⟩

/-- Of a definition a rule depends on its condition and its trigger alone. -/
theorem Draft.rule_of_condition {d d' : Draft} {rule : Rule} {e : Expression}
    (hcondition : d'.condition = d.condition) (h : d.rule = .ok (rule, e)) :
    d'.rule = .ok ({ rule with trigger := d'.trigger }, e) := by
  obtain ⟨c, hparse, hvalid, hcompile, rfl⟩ := rule_eq_ok_iff.mp h
  exact rule_eq_ok_iff.mpr ⟨c, hcondition ▸ hparse, hvalid, hcompile, rfl⟩

/-- The alarm of a definition within bounds. -/
theorem Draft.alarm_eq_ok {d : Draft} {rule : Rule} {e : Expression}
    (hname : Text.isBlankText d.name = false)
    (hinterval : 1 ≤ d.interval ∧ d.interval ≤ Draft.maxInterval)
    (htrigger : 1 ≤ d.trigger ∧ d.trigger ≤ maxPointsCap) (hrule : d.rule = .ok (rule, e))
    (owner : String) (id : Uuid) (now : Instant) :
    d.alarm owner id now = .ok {
      id, owner, rule
      name := d.name
      info := d.info
      message := d.message
      group := d.group
      enabled := d.enabled
      fired := false
      runInterval := .ofSeconds d.interval
      lastRun := now
      createdAt := now
      updatedAt := now
      history := []
      compiled := some e } := by
  rw [Draft.alarm, hname, if_neg Bool.false_ne_true, if_neg (by omega), if_neg (by omega), hrule]

/-- What an accepted definition was held to, and what the alarm has of it. -/
structure Draft.Makes (d : Draft) (a : Alarm) : Prop where
  name : Text.isBlankText d.name = false
  interval : 1 ≤ d.interval ∧ d.interval ≤ Draft.maxInterval
  trigger : 1 ≤ d.trigger ∧ d.trigger ≤ maxPointsCap
  runInterval : a.runInterval = .ofSeconds d.interval
  rule : ∃ e, d.rule = .ok (a.rule, e) ∧ a.compiled = some e

section Accepted

variable {d : Draft} {owner : String} {id : Uuid} {now : Instant} {a : Alarm}

theorem Draft.makes_of_alarm (h : d.alarm owner id now = .ok a) : d.Makes a := by
  unfold Draft.alarm at h
  split at h
  · cases h
  · rename_i hname
    split at h
    · cases h
    · rename_i hinterval
      split at h
      · cases h
      · rename_i htrigger
        split at h
        · cases h
        · rename_i rule e hrule
          cases h
          exact ⟨eq_false_of_ne_true hname, by omega, by omega, rfl, e, hrule, rfl⟩

theorem Draft.sound_of_alarm (h : d.alarm owner id now = .ok a) : a.Sound := by
  obtain ⟨-, hinterval, htrigger, hrun, e, hrule, hcompiled⟩ := makes_of_alarm h
  obtain ⟨hne, hids, hvalid, htriggerEq⟩ := filters_of_rule hrule
  refine ⟨⟨d.interval, hinterval.1, hinterval.2, hrun⟩, ?_, ?_, hne, hids, hvalid, e, ?_⟩
  · exact htriggerEq ▸ htrigger.1
  · exact htriggerEq ▸ htrigger.2
  · rw [Alarm.expression, hcompiled]

end Accepted

end Vigil

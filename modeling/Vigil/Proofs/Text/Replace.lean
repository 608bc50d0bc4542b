import Mathlib.Data.List.Basic
import Vigil.Text.Replace

/-!
# Replacing, character by character

Where no occurrence reaches across a border, the text before it and the text after it are replaced on
their own. A character outside the pattern is such a border. A text in which the pattern does not occur
stays as it is.
-/

namespace Vigil.Text

variable {α : Type} [DecidableEq α]

theorem afterPrefix?_append (ps cs : List α) : afterPrefix? ps (ps ++ cs) = some cs := by
  induction ps with
  | nil => rfl
  | cons p ps ih => rw [List.cons_append, afterPrefix?, if_pos rfl, ih]

theorem eq_append_of_afterPrefix? {ps cs rest : List α} (h : afterPrefix? ps cs = some rest) :
    cs = ps ++ rest := by
  induction ps generalizing cs with
  | nil => exact Option.some.inj h
  | cons p ps ih =>
    cases cs with
    | nil => cases h
    | cons c cs =>
      rw [afterPrefix?] at h
      split at h
      · rename_i hp
        rw [hp, ih h, List.cons_append]
      · cases h

section ReplaceAll

variable {p c : α} {ps image : List α}

theorem replaceAll_nil : replaceAll p ps image [] = [] := by
  rw [replaceAll]

theorem replaceAll_of_some {rest after : List α}
    (h : afterPrefix? (p :: ps) (c :: rest) = some after) :
    replaceAll p ps image (c :: rest) = image ++ replaceAll p ps image after := by
  rw [replaceAll]
  split
  · rename_i found hfound
    rw [h] at hfound
    rw [Option.some.inj hfound]
  · rename_i hnone
    rw [h] at hnone
    cases hnone

theorem replaceAll_of_none {rest : List α} (h : afterPrefix? (p :: ps) (c :: rest) = none) :
    replaceAll p ps image (c :: rest) = c :: replaceAll p ps image rest := by
  rw [replaceAll]
  split
  · rename_i found hfound
    rw [h] at hfound
    cases hfound
  · rfl

theorem replaceAll_cons_of_ne (h : c ≠ p) (rest : List α) :
    replaceAll p ps image (c :: rest) = c :: replaceAll p ps image rest :=
  replaceAll_of_none (if_neg (Ne.symm h))

/-- Replacing brings in nothing but the image. -/
theorem mem_replaceAll {cs : List α} {d : α} (h : d ∈ replaceAll p ps image cs) :
    d ∈ cs ∨ d ∈ image := by
  induction cs using replaceAll.induct p ps with
  | case1 =>
    rw [replaceAll_nil] at h
    exact .inl h
  | case2 c rest after hafter ih =>
    rw [replaceAll_of_some hafter] at h
    rw [eq_append_of_afterPrefix? hafter]
    rcases List.mem_append.mp h with h | h
    · exact .inr h
    · exact (ih h).imp_left (List.mem_append_right (p :: ps))
  | case3 c rest hnone ih =>
    rw [replaceAll_of_none hnone] at h
    rcases List.mem_cons.mp h with rfl | h
    · exact .inl List.mem_cons_self
    · exact (ih h).imp_left (List.mem_cons_of_mem c)

/-- Two texts are replaced on their own if no occurrence reaches from one into the other. -/
theorem replaceAll_append {cs ds : List α}
    (h : ∀ before after, before ≠ [] → after ≠ [] → before ++ after = p :: ps → before <:+ cs →
      ¬ after <+: ds) :
    replaceAll p ps image (cs ++ ds) = replaceAll p ps image cs ++ replaceAll p ps image ds := by
  induction cs using replaceAll.induct p ps with
  | case1 => rw [replaceAll_nil, List.nil_append, List.nil_append]
  | case2 c rest after hafter ih =>
    have hcs : c :: rest = (p :: ps) ++ after := eq_append_of_afterPrefix? hafter
    have hlong : afterPrefix? (p :: ps) (c :: (rest ++ ds)) = some (after ++ ds) := by
      rw [← List.cons_append, hcs, List.append_assoc, afterPrefix?_append]
    rw [List.cons_append, replaceAll_of_some hlong, replaceAll_of_some hafter, List.append_assoc, ih]
    intro before behind hbefore hbehind hpattern hsuffix
    exact h before behind hbefore hbehind hpattern
      (hsuffix.trans (hcs ▸ List.suffix_append (p :: ps) after))
  | case3 c rest hnone ih =>
    have hlong : afterPrefix? (p :: ps) (c :: (rest ++ ds)) = none := by
      cases hfound : afterPrefix? (p :: ps) (c :: (rest ++ ds)) with
      | none => rfl
      | some after =>
        have hwhole : (c :: rest) ++ ds = (p :: ps) ++ after := eq_append_of_afterPrefix? hfound
        rcases List.append_eq_append_iff.mp hwhole with ⟨more, hpattern, hds⟩ | ⟨more, hcs, -⟩
        · cases more with
          | nil =>
            have hself := afterPrefix?_append (c :: rest) []
            rw [List.append_nil] at hself hpattern
            rw [hpattern, hself] at hnone
            cases hnone
          | cons d more =>
            exact absurd (hds ▸ List.prefix_append (d :: more) after)
              (h _ _ (List.cons_ne_nil c rest) (List.cons_ne_nil d more) hpattern.symm
                (List.suffix_refl _))
        · rw [hcs, afterPrefix?_append] at hnone
          cases hnone
    rw [List.cons_append, replaceAll_of_none hlong, replaceAll_of_none hnone, List.cons_append, ih]
    intro before behind hbefore hbehind hpattern hsuffix
    exact h before behind hbefore hbehind hpattern (hsuffix.trans (List.suffix_cons c rest))

/-- Replacing goes on afresh behind a character outside the pattern. -/
theorem replaceAll_append_cons (hc : c ∉ p :: ps) (cs ds : List α) :
    replaceAll p ps image (cs ++ c :: ds) =
      replaceAll p ps image cs ++ c :: replaceAll p ps image ds := by
  have hne : c ≠ p := by
    rintro rfl
    exact hc List.mem_cons_self
  rw [replaceAll_append, replaceAll_cons_of_ne hne]
  intro before after _ hafter hpattern _ hfront
  cases after with
  | nil => exact hafter rfl
  | cons d after =>
    obtain ⟨rfl, -⟩ := List.cons_prefix_cons.mp hfront
    exact hc (hpattern ▸ List.mem_append_right before List.mem_cons_self)

/-- The pattern gives way as a whole. -/
theorem replaceAll_self : replaceAll p ps image (p :: ps) = image := by
  have h : afterPrefix? (p :: ps) (p :: ps) = some [] := by
    have happend := afterPrefix?_append (p :: ps) []
    rwa [List.append_nil] at happend
  rw [replaceAll_of_some h, replaceAll_nil, List.append_nil]

/-- A text without the pattern stays as it is. -/
theorem replaceAll_of_not_isInfix {cs : List α} (h : ¬ (p :: ps) <:+: cs) :
    replaceAll p ps image cs = cs := by
  induction cs with
  | nil => exact replaceAll_nil
  | cons c rest ih =>
    have hnone : afterPrefix? (p :: ps) (c :: rest) = none := by
      cases hafter : afterPrefix? (p :: ps) (c :: rest) with
      | none => rfl
      | some after =>
        exact absurd ⟨[], after, (eq_append_of_afterPrefix? hafter).symm⟩ h
    rw [replaceAll_of_none hnone, ih fun hrest => h (hrest.trans (List.suffix_cons c rest).isInfix)]

/-- One occurrence gives way where no other one can be. -/
theorem replaceAll_middle {m : α} {cs ds : List α} (hm : m ∈ p :: ps) (hcs : m ∉ cs) (hds : m ∉ ds) :
    replaceAll p ps image (cs ++ (p :: ps ++ ds)) = cs ++ (image ++ ds) := by
  have htail : replaceAll p ps image ds = ds :=
    replaceAll_of_not_isInfix fun hinside => hds (hinside.subset hm)
  induction cs with
  | nil =>
    have hafter := afterPrefix?_append (p :: ps) ds
    rw [List.nil_append, List.cons_append]
    rw [List.cons_append] at hafter
    rw [replaceAll_of_some hafter, htail, List.nil_append]
  | cons c cs ih =>
    have hnone : afterPrefix? (p :: ps) (c :: (cs ++ (p :: ps ++ ds))) = none := by
      cases hafter : afterPrefix? (p :: ps) (c :: (cs ++ (p :: ps ++ ds))) with
      | none => rfl
      | some after =>
        -- the first `m` would stand in two places
        obtain ⟨first, last, hpattern, hfirst⟩ := List.eq_append_cons_of_mem hm
        have hwhole := eq_append_of_afterPrefix? hafter
        rw [hpattern, List.append_assoc, List.append_assoc, List.cons_append, List.cons_append,
          ← List.append_assoc, ← List.cons_append] at hwhole
        have hnot : m ∉ c :: (cs ++ first) := by
          rw [← List.cons_append, List.mem_append, not_or]
          exact ⟨hcs, hfirst⟩
        have hplace := congrArg (List.idxOf m) hwhole
        rw [List.idxOf_append_of_notMem hnot, List.idxOf_append_of_notMem hfirst,
          List.idxOf_cons_self, List.idxOf_cons_self, List.length_cons, List.length_append] at hplace
        omega
    rw [List.cons_append, replaceAll_of_none hnone, ih fun h => hcs (List.mem_cons_of_mem c h)]
    rfl

end ReplaceAll

end Vigil.Text

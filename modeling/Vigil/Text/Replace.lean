/-!
# Occurrences of a text in a text

Replacing goes through a text from left to right and takes the occurrences that do not overlap an
earlier one. A text occurs in another when it stands there as a whole, from some place on.
-/

namespace Vigil.Text

/-- What follows the pattern at the head of a text. -/
def afterPrefix? {α : Type} [DecidableEq α] : List α → List α → Option (List α)
  | [], cs => some cs
  | _ :: _, [] => none
  | p :: ps, c :: cs => if p = c then afterPrefix? ps cs else none

theorem length_of_afterPrefix? {α : Type} [DecidableEq α] {ps cs rest : List α}
    (h : afterPrefix? ps cs = some rest) : rest.length + ps.length = cs.length := by
  induction ps generalizing cs with
  | nil => simp_all [afterPrefix?]
  | cons p ps ih =>
    cases cs with
    | nil => simp [afterPrefix?] at h
    | cons c cs =>
      simp only [afterPrefix?] at h
      split at h
      · have := ih h; simp; omega
      · simp at h

/-- Put `image` in place of every occurrence of the non-empty text `p :: ps`. -/
def replaceAll {α : Type} [DecidableEq α] (p : α) (ps image : List α) (cs : List α) : List α :=
  match cs with
  | [] => []
  | c :: rest =>
    match _h : afterPrefix? (p :: ps) (c :: rest) with
    | some after => image ++ replaceAll p ps image after
    | none => c :: replaceAll p ps image rest
termination_by cs.length
decreasing_by
  · have := length_of_afterPrefix? _h
    simp at this ⊢; omega
  · simp

/-- Put `image` in place of every occurrence of `pattern`; the empty text occurs nowhere. -/
def replace (pattern image text : String) : String :=
  match pattern.toList with
  | [] => text
  | p :: ps => String.ofList (replaceAll p ps image.toList text.toList)

/-- The pattern stands somewhere in the text. -/
def occurs {α : Type} [DecidableEq α] (pattern : List α) : List α → Bool
  | [] => pattern.isEmpty
  | c :: rest => (afterPrefix? pattern (c :: rest)).isSome || occurs pattern rest

end Vigil.Text

import Vigil.Condition
import Vigil.Proofs.Text.Replace

/-!
# Pieces and marks

A text is its pieces with the marks of the operators between them. Put together again they give the
text, and a pattern without marks is replaced in each piece on its own.
-/

namespace Vigil.Condition

open Vigil.Text (replaceAll)

def marks (cs : List Char) : List Char :=
  cs.filter isOperatorChar

def lead (pieces : List (List Char)) (marks : List Char) : List Char :=
  (pieces.zip marks).flatMap fun s => s.1 ++ [s.2]

def trail (marks : List Char) (pieces : List (List Char)) : List Char :=
  (marks.zip pieces).flatMap fun s => s.1 :: s.2

def weave : List (List Char) → List Char → List Char
  | [], _ => []
  | piece :: more, marks => piece ++ trail marks more

theorem mark_cases {c : Char} (h : isOperatorChar c = true) :
    c = '-' ∨ c = '+' ∨ c = '=' ∨ c = '>' ∨ c = '<' ∨ c = '*' ∨ c = '/' ∨ c = '%' ∨ c = '&' ∨
      c = '|' ∨ c = '!' := by
  have hmem : c ∈ ['-', '+', '=', '>', '<', '*', '/', '%', '&', '|', '!'] :=
    List.contains_iff_mem.mp h
  simpa using hmem

@[simp] theorem marks_of_mark {c : Char} (hc : isOperatorChar c = true) (cs : List Char) :
    marks (c :: cs) = c :: marks cs :=
  List.filter_cons_of_pos hc

@[simp] theorem marks_of_not_mark {c : Char} (hc : isOperatorChar c = false) (cs : List Char) :
    marks (c :: cs) = marks cs :=
  List.filter_cons_of_neg (ne_true_of_eq_false hc)

theorem isOperatorChar_of_mem_marks {c : Char} {cs : List Char} (h : c ∈ marks cs) :
    isOperatorChar c = true :=
  (List.mem_filter.mp h).2

theorem pieces_of_mark {c : Char} (hc : isOperatorChar c = true) (cs : List Char) :
    pieces (c :: cs) = [] :: pieces cs := by
  rw [pieces, if_pos hc]

theorem pieces_ne_nil (cs : List Char) : pieces cs ≠ [] := by
  cases cs with
  | nil => exact List.cons_ne_nil _ _
  | cons c cs =>
    rw [pieces]
    split
    · exact List.cons_ne_nil _ _
    · split <;> exact List.cons_ne_nil _ _

/-- A character that is no mark joins the first piece behind it. -/
theorem pieces_of_not_mark {c : Char} (hc : isOperatorChar c = false) (cs : List Char) :
    ∃ piece more, pieces cs = piece :: more ∧ pieces (c :: cs) = (c :: piece) :: more := by
  rw [pieces, if_neg (ne_true_of_eq_false hc)]
  cases h : pieces cs with
  | nil => exact absurd h (pieces_ne_nil cs)
  | cons piece more => exact ⟨piece, more, rfl, rfl⟩

theorem length_pieces (cs : List Char) : (pieces cs).length = (marks cs).length + 1 := by
  induction cs with
  | nil => rfl
  | cons c cs ih =>
    cases hc : isOperatorChar c with
    | true => rw [pieces_of_mark hc, marks_of_mark hc, List.length_cons, List.length_cons, ih]
    | false =>
      obtain ⟨piece, more, hpieces, hcons⟩ := pieces_of_not_mark hc cs
      rw [hcons, marks_of_not_mark hc, ← ih, hpieces, List.length_cons, List.length_cons]

theorem not_mark_of_mem_pieces {cs piece : List Char} (h : piece ∈ pieces cs) :
    ∀ c ∈ piece, isOperatorChar c = false := by
  induction cs generalizing piece with
  | nil =>
    rw [List.mem_singleton.mp h]
    intro c hmem
    cases hmem
  | cons d cs ih =>
    cases hd : isOperatorChar d with
    | true =>
      rw [pieces_of_mark hd] at h
      rcases List.mem_cons.mp h with rfl | h
      · intro c hmem
        cases hmem
      · exact ih h
    | false =>
      obtain ⟨first, more, hpieces, hcons⟩ := pieces_of_not_mark hd cs
      rw [hcons] at h
      rcases List.mem_cons.mp h with rfl | h
      · intro c hmem
        rcases List.mem_cons.mp hmem with rfl | hmem
        · exact hd
        · exact ih (by rw [hpieces]; exact List.mem_cons_self) c hmem
      · exact ih (by rw [hpieces]; exact List.mem_cons_of_mem _ h)

theorem weave_singleton (piece marks : List Char) : weave [piece] marks = piece := by
  cases marks <;> exact List.append_nil piece

theorem weave_cons_cons (first second : List Char) (more : List (List Char)) (mark : Char)
    (marks : List Char) :
    weave (first :: second :: more) (mark :: marks) =
      first ++ mark :: weave (second :: more) marks := rfl

theorem weave_cons_append (c : Char) (piece : List Char) (more : List (List Char))
    (marks : List Char) :
    weave ((c :: piece) :: more) marks = c :: weave (piece :: more) marks := rfl

/-- The pieces of a text with its marks between them are the text. -/
theorem weave_pieces (cs : List Char) : weave (pieces cs) (marks cs) = cs := by
  induction cs with
  | nil => rfl
  | cons c cs ih =>
    cases hc : isOperatorChar c with
    | true =>
      rw [pieces_of_mark hc, marks_of_mark hc]
      cases h : pieces cs with
      | nil => exact absurd h (pieces_ne_nil cs)
      | cons piece more => rw [weave_cons_cons, ← h, ih, List.nil_append]
    | false =>
      obtain ⟨piece, more, hpieces, hcons⟩ := pieces_of_not_mark hc cs
      rw [hcons, marks_of_not_mark hc, weave_cons_append, ← hpieces, ih]

/-- What stands before a mark is a piece of its own. -/
theorem pieces_append_mark {piece : List Char} (hpiece : ∀ c ∈ piece, isOperatorChar c = false)
    {mark : Char} (hmark : isOperatorChar mark = true) (cs : List Char) :
    pieces (piece ++ mark :: cs) = piece :: pieces cs := by
  induction piece with
  | nil => exact pieces_of_mark hmark cs
  | cons c piece ih =>
    obtain ⟨first, more, hrest, hcons⟩ :=
      pieces_of_not_mark (hpiece c List.mem_cons_self) (piece ++ mark :: cs)
    rw [ih fun d hd => hpiece d (List.mem_cons_of_mem c hd)] at hrest
    cases hrest
    exact hcons

theorem pieces_of_no_mark {piece : List Char} (hpiece : ∀ c ∈ piece, isOperatorChar c = false) :
    pieces piece = [piece] := by
  induction piece with
  | nil => rfl
  | cons c piece ih =>
    obtain ⟨first, more, hrest, hcons⟩ := pieces_of_not_mark (hpiece c List.mem_cons_self) piece
    rw [ih fun d hd => hpiece d (List.mem_cons_of_mem c hd)] at hrest
    cases hrest
    exact hcons

/-- Pieces are found again behind the marks that were put between them. -/
theorem pieces_weave {pieces : List (List Char)} {marks : List Char}
    (hpieces : ∀ piece ∈ pieces, ∀ c ∈ piece, isOperatorChar c = false)
    (hmarks : ∀ c ∈ marks, isOperatorChar c = true) (hlength : pieces.length = marks.length + 1) :
    Condition.pieces (weave pieces marks) = pieces := by
  induction pieces generalizing marks with
  | nil => cases hlength
  | cons first more ih =>
    have hfirst := hpieces first List.mem_cons_self
    cases more with
    | nil => rw [weave_singleton, pieces_of_no_mark hfirst]
    | cons second more =>
      cases marks with
      | nil => cases hlength
      | cons mark marks =>
        rw [weave_cons_cons, pieces_append_mark hfirst (hmarks mark List.mem_cons_self),
          ih (fun piece hpiece => hpieces piece (List.mem_cons_of_mem first hpiece))
            (fun c hc => hmarks c (List.mem_cons_of_mem mark hc)) (Nat.succ.inj hlength)]

/-- A piece stands between the pieces before it and those after it. -/
theorem weave_append (before after : List (List Char)) (piece marks : List Char)
    (h : before.length ≤ marks.length) :
    weave (before ++ piece :: after) marks =
      lead before marks ++ piece ++ trail (marks.drop before.length) after := by
  induction before generalizing marks with
  | nil => rfl
  | cons first before ih =>
    cases marks with
    | nil => cases h
    | cons mark marks =>
      have hih := ih marks (Nat.le_of_succ_le_succ h)
      have hstep : weave (first :: before ++ piece :: after) (mark :: marks) =
          first ++ mark :: weave (before ++ piece :: after) marks := by
        cases before <;> rfl
      have hlead : lead (first :: before) (mark :: marks) = first ++ mark :: lead before marks := by
        simp only [lead, List.zip_cons_cons, List.flatMap_cons, List.append_assoc,
          List.singleton_append]
      rw [hstep, hih, hlead]
      simp only [List.append_assoc, List.cons_append, List.length_cons, List.drop_succ_cons]

theorem isInfix_weave {pieces : List (List Char)} {piece marks : List Char} (hpiece : piece ∈ pieces)
    (h : pieces.length ≤ marks.length + 1) : piece <:+: weave pieces marks := by
  obtain ⟨before, after, rfl⟩ := List.append_of_mem hpiece
  rw [List.length_append, List.length_cons] at h
  rw [weave_append before after piece marks (by omega)]
  exact ⟨_, _, rfl⟩

/-- A pattern without marks is replaced piece by piece. -/
theorem replaceAll_weave {p : Char} {ps image marks : List Char}
    (hmarks : ∀ c ∈ marks, c ∉ p :: ps) (pieces : List (List Char)) :
    replaceAll p ps image (weave pieces marks) =
      weave (pieces.map (replaceAll p ps image)) marks := by
  induction pieces generalizing marks with
  | nil => exact Text.replaceAll_nil
  | cons first more ih =>
    cases more with
    | nil => rw [weave_singleton, List.map_singleton, weave_singleton]
    | cons second more =>
      cases marks with
      | nil => exact (congrArg _ (List.append_nil first)).trans (List.append_nil _).symm
      | cons mark marks =>
        rw [weave_cons_cons, Text.replaceAll_append_cons (hmarks mark List.mem_cons_self),
          ih fun c hc => hmarks c (List.mem_cons_of_mem _ hc)]
        rfl

end Vigil.Condition

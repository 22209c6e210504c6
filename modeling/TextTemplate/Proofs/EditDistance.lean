import Mathlib.Order.Bounds.Basic
import TextTemplate.EditDistance

/-!
# The edit distance is the least number of edits

The rows from which the distance is computed obey its recursion: the first characters are kept or replaced, or one of them
is inserted or deleted. So the distance can be reached by edits; and as one edit changes it by one at most, in
whatever place it is made, no fewer edits lead from one text to the other.

Main results:
* `row_cons`, `editDistance_cons_cons`: the rows and the recursion.
* `edits_editDistance`: so many edits do.
* `Edit.editDistance_le`: one edit changes the distance by one at most.
* `editDistance_isLeast`: the distance is the least number of edits.
-/

namespace TextTemplate

/-! ## Specification -/

/-- One edit: a character is inserted, deleted or replaced. -/
inductive Edit : Text → Text → Prop
  | insert (s t : Text) (c : Char) : Edit (s ++ t) (s ++ c :: t)
  | delete (s t : Text) (c : Char) : Edit (s ++ c :: t) (s ++ t)
  | replace (s t : Text) (c d : Char) : Edit (s ++ c :: t) (s ++ d :: t)

/-- So many edits, one after the other, lead from the first text to the second. -/
inductive Edits : Nat → Text → Text → Prop
  | refl (s : Text) : Edits 0 s s
  | head {n : Nat} {s t u : Text} : Edit s t → Edits n t u → Edits (n + 1) s u

/-! ## The recursion -/

/-- A row starts with a distance and goes on with the row of the text without its first character. -/
theorem row_cons (s : Text) (b : Char) (t : Text) : row s (b :: t) = editDistance s (b :: t) :: row s t := by
  induction s with
  | nil => rfl
  | cons c s ih =>
    have hrow : ∀ u, row (c :: s) u = extendRow c u (row s u) := fun _ => rfl
    rw [editDistance, hrow, ih, extendRow, ← hrow]
    rfl

theorem editDistance_nil_left (t : Text) : editDistance [] t = t.length := by
  cases t <;> rfl

theorem row_nil_right (s : Text) : row s [] = [s.length] := by
  induction s with
  | nil => rfl
  | cons c s ih =>
    show extendRow c [] (row s []) = _
    rw [ih]
    rfl

theorem editDistance_nil_right (s : Text) : editDistance s [] = s.length := by
  rw [editDistance, row_nil_right]
  rfl

theorem editDistance_cons_cons (c : Char) (s : Text) (b : Char) (t : Text) :
    editDistance (c :: s) (b :: t) =
      min (min (editDistance (c :: s) t + 1) (editDistance s (b :: t) + 1))
        (editDistance s t + if c = b then 0 else 1) := by
  have hrow : row (c :: s) (b :: t) = extendRow c (b :: t) (row s (b :: t)) := rfl
  rw [row_cons s, extendRow] at hrow
  exact congrArg (·.headD 0) hrow

/-! ## So many edits do -/

/-- Edits can be made behind a character. -/
theorem Edit.cons {s t : Text} (c : Char) (h : Edit s t) : Edit (c :: s) (c :: t) := by
  cases h with
  | insert s t d => exact .insert (c :: s) t d
  | delete s t d => exact .delete (c :: s) t d
  | replace s t d d' => exact .replace (c :: s) t d d'

theorem Edits.cons {n : Nat} {s t : Text} (c : Char) (h : Edits n s t) : Edits n (c :: s) (c :: t) := by
  induction h with
  | refl s => exact .refl _
  | head hedit _ ih => exact .head (hedit.cons c) ih

theorem Edits.tail {n : Nat} {s t u : Text} (h : Edits n s t) (hedit : Edit t u) : Edits (n + 1) s u := by
  induction h with
  | refl s => exact .head hedit (.refl u)
  | head hfirst _ ih => exact .head hfirst (ih hedit)

theorem edits_editDistance (s t : Text) : Edits (editDistance s t) s t := by
  induction s generalizing t with
  | nil =>
    induction t with
    | nil => exact .refl []
    | cons b t ih =>
      rw [editDistance_nil_left] at ih ⊢
      exact ih.tail (.insert [] t b)
  | cons c s ihs =>
    induction t with
    | nil =>
      have hs := ihs []
      rw [editDistance_nil_right] at hs ⊢
      exact .head (.delete [] s c) hs
    | cons b t iht =>
      rw [editDistance_cons_cons]
      rcases Nat.le_total (min (editDistance (c :: s) t + 1) (editDistance s (b :: t) + 1))
        (editDistance s t + if c = b then 0 else 1) with hle | hle
      · rw [Nat.min_eq_left hle]
        rcases Nat.le_total (editDistance (c :: s) t + 1) (editDistance s (b :: t) + 1) with hle' | hle'
        · rw [Nat.min_eq_left hle']
          exact iht.tail (.insert [] t b)
        · rw [Nat.min_eq_right hle']
          exact .head (.delete [] s c) (ihs (b :: t))
      · rw [Nat.min_eq_right hle]
        split_ifs with hcb
        · subst hcb
          exact (ihs t).cons c
        · exact .head (.replace [] s c b) ((ihs t).cons b)

/-! ## No fewer edits do -/

theorem editDistance_cons_left_le (c : Char) (s t : Text) : editDistance (c :: s) t ≤ editDistance s t + 1 := by
  cases t with
  | nil => rw [editDistance_nil_right, editDistance_nil_right, List.length_cons]
  | cons b t => rw [editDistance_cons_cons]; omega

theorem editDistance_cons_right_le (s : Text) (b : Char) (t : Text) :
    editDistance s (b :: t) ≤ editDistance s t + 1 := by
  cases s with
  | nil => rw [editDistance_nil_left, editDistance_nil_left, List.length_cons]
  | cons c s => rw [editDistance_cons_cons]; omega

theorem editDistance_le_cons_left (c : Char) (s t : Text) : editDistance s t ≤ editDistance (c :: s) t + 1 := by
  induction t with
  | nil => rw [editDistance_nil_right, editDistance_nil_right, List.length_cons]; omega
  | cons b t ih =>
    have := editDistance_cons_right_le s b t
    rw [editDistance_cons_cons]
    omega

theorem editDistance_replace_le (c d : Char) (s t : Text) :
    editDistance (c :: s) t ≤ editDistance (d :: s) t + 1 := by
  induction t with
  | nil => rw [editDistance_nil_right, editDistance_nil_right, List.length_cons, List.length_cons]; omega
  | cons b t ih =>
    rw [editDistance_cons_cons, editDistance_cons_cons]
    split_ifs <;> omega

/-- Texts as near to each other are so behind a character. -/
theorem editDistance_cons_le {s s' : Text} (h : ∀ t, editDistance s t ≤ editDistance s' t + 1) (c : Char) (t : Text) :
    editDistance (c :: s) t ≤ editDistance (c :: s') t + 1 := by
  induction t with
  | nil =>
    have := h []
    rw [editDistance_nil_right, editDistance_nil_right] at this ⊢
    simpa using this
  | cons b t ih =>
    have hboth := h (b :: t)
    have hrest := h t
    rw [editDistance_cons_cons, editDistance_cons_cons]
    omega

theorem editDistance_append_le {s s' : Text} (h : ∀ t, editDistance s t ≤ editDistance s' t + 1) (r t : Text) :
    editDistance (r ++ s) t ≤ editDistance (r ++ s') t + 1 := by
  induction r generalizing t with
  | nil => exact h t
  | cons c r ih => exact editDistance_cons_le ih c t

/-- One edit changes the distance to any text by one at most. -/
theorem Edit.editDistance_le {s s' : Text} (h : Edit s s') (t : Text) :
    editDistance s t ≤ editDistance s' t + 1 := by
  cases h with
  | insert r s c => exact editDistance_append_le (editDistance_le_cons_left c s) r t
  | delete r s c => exact editDistance_append_le (editDistance_cons_left_le c s) r t
  | replace r s c d => exact editDistance_append_le (editDistance_replace_le c d s) r t

theorem editDistance_self (s : Text) : editDistance s s = 0 := by
  induction s with
  | nil => rfl
  | cons c s ih => rw [editDistance_cons_cons, ih, if_pos rfl]; omega

theorem Edits.editDistance_le {n : Nat} {s t : Text} (h : Edits n s t) : editDistance s t ≤ n := by
  induction h with
  | refl s => rw [editDistance_self]
  | @head _ _ _ u hedit _ ih =>
    have := hedit.editDistance_le u
    omega

/-- The distance that the rows come to is the least number of edits from one text to the other. -/
theorem editDistance_isLeast (s t : Text) : IsLeast {n | Edits n s t} (editDistance s t) :=
  ⟨edits_editDistance s t, fun _ h => h.editDistance_le⟩

end TextTemplate

import Mathlib.Data.List.TakeWhile
import TextTemplate.Text.Quoted

/-!
# Lexemes

The lexical rules that both grammars share, as relations on texts: a maximal run of characters and a
quoted string.

Main results:
* `isRun_iff`: a text has one maximal run, which `takeWhile` and `dropWhile` cut off.
* `Quoted.read_eq_ok_iff`: a quoted string is read exactly where one is written.
* `Quoted.fault_of_read`: a string that cannot be read is refused at a place inside the text.
-/

namespace TextTemplate

theorem suffix_cons_of {s r : Text} (c : Char) (h : r <:+ s) : r <:+ c :: s :=
  h.trans (List.suffix_cons c s)

theorem ne_nil_of_suffix {s r : Text} (h : r <:+ s) (hr : r ≠ []) : s ≠ [] := by
  rintro rfl
  exact hr (List.suffix_nil.1 h)

/-- What ends with `r` and `x` ends with `x`. -/
theorem exists_eq_append_of_suffix {s r x : Text} (h : r ++ x <:+ s) : ∃ t, s = t ++ x := by
  obtain ⟨u, rfl⟩ := h
  exact ⟨u ++ r, (List.append_assoc u r x).symm⟩

/-! ## Maximal runs -/

/-- `t` is all that stands at the front of `s` in characters of `p`, and `r` is what follows. -/
structure IsRun (p : Char → Bool) (s t r : Text) : Prop where
  /-- The run and the rest are the text. -/
  split : s = t ++ r
  /-- The run is in `p`. -/
  all : ∀ c ∈ t, p c = true
  /-- The run cannot be longer. -/
  stop : ∀ c ∈ r.head?, p c = false

theorem isRun_takeWhile (p : Char → Bool) (s : Text) :
    IsRun p s (s.takeWhile p) (s.dropWhile p) where
  split := List.takeWhile_append_dropWhile.symm
  all := fun _ hc => List.mem_takeWhile_imp hc
  stop := by
    intro c hc
    have h := List.head?_dropWhile_not p s
    rw [Option.mem_def.1 hc] at h
    exact h

theorem IsRun.takeWhile_eq {p : Char → Bool} {s t r : Text} (h : IsRun p s t r) :
    s.takeWhile p = t := by
  rw [h.split, List.takeWhile_append_of_pos h.all]
  cases r with
  | nil => simp
  | cons c r => rw [List.takeWhile_cons, h.stop c rfl]; simp

theorem IsRun.dropWhile_eq {p : Char → Bool} {s t r : Text} (h : IsRun p s t r) :
    s.dropWhile p = r := by
  rw [h.split, List.dropWhile_append_of_pos h.all]
  cases r with
  | nil => rfl
  | cons c r => rw [List.dropWhile_cons, h.stop c rfl]; simp

theorem isRun_iff {p : Char → Bool} {s t r : Text} :
    IsRun p s t r ↔ s.takeWhile p = t ∧ s.dropWhile p = r := by
  constructor
  · intro h; exact ⟨h.takeWhile_eq, h.dropWhile_eq⟩
  · rintro ⟨rfl, rfl⟩; exact isRun_takeWhile p s

theorem IsRun.suffix {p : Char → Bool} {s t r : Text} (h : IsRun p s t r) : r <:+ s :=
  ⟨t, h.split.symm⟩

/-- What does not go on in front of `r` does not go on there with `x` behind `r`, if something stands between them or
    `x` does not go on with it. -/
theorem head?_append_eq_false {p : Char → Bool} {r x : Text} (hr : ∀ c ∈ r.head?, p c = false)
    (hx : r ≠ [] ∨ ∀ c ∈ x.head?, p c = false) : ∀ c ∈ (r ++ x).head?, p c = false := by
  cases r with
  | nil => exact hx.resolve_left (· rfl)
  | cons d r => exact hr

/-- A run is one with more text behind, if that does not prolong it. -/
theorem IsRun.inFrontOf {p : Char → Bool} {s t r x : Text} (h : IsRun p s t r)
    (hx : r ≠ [] ∨ ∀ c ∈ x.head?, p c = false) : IsRun p (s ++ x) t (r ++ x) where
  split := by rw [h.split, List.append_assoc]
  all := h.all
  stop := head?_append_eq_false h.stop hx

/-- A run is one without the last part of what follows it. -/
theorem IsRun.of_inFrontOf {p : Char → Bool} {s t r x : Text} (h : IsRun p (s ++ x) t (r ++ x)) :
    IsRun p s t r where
  split := by
    have hsplit := h.split
    rw [← List.append_assoc] at hsplit
    exact List.append_cancel_right hsplit
  all := h.all
  stop := by
    cases r with
    | nil => simp
    | cons c r => exact h.stop

/-- A run that `c` starts is the rest of the run behind `c`. -/
theorem isRun_cons {p : Char → Bool} {c : Char} {s : Text} (hc : p c = true) :
    IsRun p (c :: s) (c :: s.takeWhile p) (s.dropWhile p) := by
  rw [isRun_iff, List.takeWhile_cons, List.dropWhile_cons, hc]
  exact ⟨rfl, rfl⟩

/-- Behind its first character a run goes on as a run. -/
theorem IsRun.exists_cons {p : Char → Bool} {s t r : Text} (h : IsRun p s t r) (hne : t ≠ []) :
    ∃ c v, s = c :: v ∧ p c = true ∧ t = c :: v.takeWhile p ∧ v.dropWhile p = r := by
  obtain ⟨c, t, rfl⟩ := List.exists_cons_of_ne_nil hne
  have hc := h.all c List.mem_cons_self
  have ht := h.takeWhile_eq
  have hr := h.dropWhile_eq
  have hs := h.split
  rw [List.cons_append] at hs
  rw [hs, List.takeWhile_cons, if_pos hc] at ht
  rw [hs, List.dropWhile_cons, if_pos hc] at hr
  exact ⟨c, _, hs, hc, ht.symm, hr⟩

/-! ## Quoted strings -/

namespace Quoted

/-- Between quotes `q`, the first text is written for the second. -/
inductive Writes (q : Char) : Text → Text → Prop
  | nil : Writes q [] []
  | raw {c : Char} {w t : Text} : ' ' ≤ c → c ≠ '\\' → c ≠ q → Writes q w t →
      Writes q (c :: w) (c :: t)
  | escape {c d : Char} {w t : Text} : unescape? c = some d → Writes q w t →
      Writes q ('\\' :: c :: w) (d :: t)

/-- What can be missed in a quoted string. -/
def errors : List SyntaxError := [.unterminatedString, .unsupportedEscape]

/-- Reading a character that starts no escape. -/
theorem read_cons {q c : Char} (hc : c ≠ '\\') (s : Text) :
    read q (c :: s) =
      if c = q then .ok ([], s)
      else if c < ' ' then .error ⟨c :: s, .unterminatedString⟩
      else (read q s).map fun (t, u) => (c :: t, u) := by
  rw [read]
  · intro h; exact absurd h hc
  · intro _ _ h; exact absurd h hc

/-- A character is no backslash if it neither ends a text as one nor is followed by another. -/
theorem ne_backslash {c : Char} {s : Text} (h : c = '\\' → s = [] → False)
    (h' : ∀ d u, c = '\\' → s = d :: u → False) : c ≠ '\\' := by
  intro hc
  cases s with
  | nil => exact h hc rfl
  | cons d u => exact h' d u hc rfl

theorem writes_of_read {q : Char} {s t r : Text} (h : read q s = .ok (t, r)) :
    ∃ w, Writes q w t ∧ s = w ++ q :: r := by
  fun_induction read q s generalizing t with
  | case1 => cases h
  | case2 => cases h
  | case3 => cases h
  | case4 c u d hd ih =>
    obtain ⟨⟨t', v⟩, k, e⟩ := exists_of_map_eq_ok h
    cases e
    obtain ⟨w, hw, rfl⟩ := ih k
    exact ⟨'\\' :: c :: w, .escape hd hw, rfl⟩
  | case5 u =>
    cases h
    exact ⟨[], .nil, rfl⟩
  | case6 => cases h
  | case7 c u hb hb' hq hl ih =>
    obtain ⟨⟨t', v⟩, k, e⟩ := exists_of_map_eq_ok h
    cases e
    obtain ⟨w, hw, rfl⟩ := ih k
    exact ⟨c :: w, .raw (Char.not_lt.1 hl) (ne_backslash hb hb') hq hw, rfl⟩

theorem ne_backslash_of_isQuote {q : Char} (hq : isQuote q = true) : q ≠ '\\' := by
  rintro rfl
  exact absurd hq (by decide)

theorem read_of_writes {q : Char} (hq : isQuote q = true) {w t : Text} (h : Writes q w t)
    (r : Text) : read q (w ++ q :: r) = .ok (t, r) := by
  induction h with
  | nil => simp [read, ne_backslash_of_isQuote hq]
  | raw hc hb hne _ ih =>
    rw [List.cons_append, read_cons hb, if_neg hne, if_neg (Char.not_lt.2 hc), ih]
    rfl
  | escape hd _ ih =>
    rw [List.cons_append, List.cons_append, read]
    simp only [hd, ih]
    rfl

/-- Reading behind the opening quote succeeds exactly on what is written for the contents, with the
    closing quote after it. -/
theorem read_eq_ok_iff {q : Char} (hq : isQuote q = true) {s t r : Text} :
    read q s = .ok (t, r) ↔ ∃ w, Writes q w t ∧ s = w ++ q :: r := by
  constructor
  · exact writes_of_read
  · rintro ⟨w, hw, rfl⟩
    exact read_of_writes hq hw r

/-- What is missed in a string lies in the text. -/
theorem fault_of_read {q : Char} {s : Text} {f : Fault} (h : read q s = .error f) :
    f.rest <:+ s ∧ f.error ∈ errors := by
  fun_induction read q s with
  | case1 => cases h; exact ⟨List.suffix_rfl, by simp [errors]⟩
  | case2 => cases h; exact ⟨List.nil_suffix, by simp [errors]⟩
  | case3 => cases h; exact ⟨List.suffix_cons _ _, by simp [errors]⟩
  | case4 c u d hd ih =>
    obtain ⟨hrest, herror⟩ := ih (error_of_map_eq_error h)
    exact ⟨(hrest.trans (List.suffix_cons _ _)).trans (List.suffix_cons _ _), herror⟩
  | case5 => cases h
  | case6 => cases h; exact ⟨List.suffix_rfl, by simp [errors]⟩
  | case7 c u hb hb' hq hl ih =>
    obtain ⟨hrest, herror⟩ := ih (error_of_map_eq_error h)
    exact ⟨hrest.trans (List.suffix_cons _ _), herror⟩

end Quoted

end TextTemplate

import TextTemplate.Proofs.Template.Concatenation
import TextTemplate.Proofs.Template.Join

/-!
# Evaluation from within a line

A text whose front lies within a line is evaluated from there to the end of the line, and then line by line. Seen so,
a text is evaluated from its front on: a literal character is followed by what the rest produces, and so is what an
expansion produces, whether the rest is a template or not. A line that holds more than a comment is evaluated in this
way from its start, since its indentation stands for itself, as literal text does.

Main results:
* `evalWithinLine_append`, `evalWithinLine_newline`, `evalWithinLine_dollar`: the text from its front on.
* `evalText_eq_evalWithinLine`: whole texts.
* `evalText_append_lines`: a text behind lines without dollar signs.
-/

namespace TextTemplate

/-! ## Specification -/

/-- What a text produces whose front lies within a line: its parts up to the end of the line, the newline there, and
    what the lines behind it produce. -/
def evalWithinLine (m : Semantics) (s : Text) : Inquiry Failure Text :=
  match readLineParts s with
  | .error t => t.eval m
  | .ok ⟨ps, r, _⟩ =>
    (evalParts m ps).bind fun t => (evalText m r).bind fun u => .pure (t ++ '\n' :: u)

/-- In its first line the text holds nothing but a comment. -/
def StartsWithComment (s : Text) : Prop := ['$', '-', '-'] <+: s.dropWhile isBlank

variable {m : Semantics}

/-! ## From the front on -/

theorem evalText_nil (m : Semantics) : evalText m [] = .pure [] := by
  rw [evalText, Template.read]
  rfl

theorem evalWithinLine_nil (m : Semantics) : evalWithinLine m [] = .pure ['\n'] := by
  rw [evalWithinLine, readLineParts]
  simp only [evalText_nil, evalParts]
  rfl

theorem evalWithinLine_newline (m : Semantics) (s : Text) :
    evalWithinLine m ('\n' :: s) = (evalText m s).bind fun u => .pure ('\n' :: u) := by
  rw [evalWithinLine, readLineParts]
  simp only [if_true, evalParts]
  rfl

/-- An expansion is followed by what the rest of the line produces. -/
theorem evalWithinLine_dollar (m : Semantics) (s : Text) :
    evalWithinLine m ('$' :: s) =
      match readExpansion s with
      | .error t => t.eval m
      | .ok ⟨e, r, _⟩ => (e.eval m).bind fun t => (evalWithinLine m r).bind fun u => .pure (t ++ u) := by
  unfold evalWithinLine
  rw [readLineParts]
  simp only [if_true, if_neg (show ¬ '$' = '\n' by decide)]
  cases readExpansion s with
  | error t => rfl
  | ok R =>
    obtain ⟨e, r, k⟩ := R
    simp only
    cases readLineParts r with
    | error t =>
      simp only [Truncation.eval_after, Truncation.eval_bind, evalParts, Part.eval]
      exact Inquiry.bind_assoc _ _ _
    | ok R =>
      simp only [evalParts_cons, Part.eval, Inquiry.bind_assoc, Inquiry.bind, List.append_assoc]

theorem evalWithinLine_join (m : Semantics) (s : Text) :
    evalWithinLine m ('$' :: '\n' :: s) = evalWithinLine m s := by
  rw [evalWithinLine_dollar, readExpansion]
  exact Inquiry.bind_pure _

theorem evalWithinLine_dollars (m : Semantics) (s : Text) :
    evalWithinLine m ('$' :: '$' :: s) = (evalWithinLine m s).bind fun u => .pure ('$' :: u) := by
  rw [evalWithinLine_dollar, readExpansion]
  rfl

/-- A stretch of literal text is produced as it is. -/
theorem IsRun.evalWithinLine {s t r : Text} (h : IsRun isLiteralChar s t r) :
    evalWithinLine m s = (evalWithinLine m r).bind fun u => .pure (t ++ u) := by
  by_cases ht : t = []
  · subst ht
    rw [h.split]
    exact (Inquiry.bind_pure _).symm
  · obtain ⟨c, v, rfl, hc, rfl, rfl⟩ := h.exists_cons ht
    obtain ⟨hd, hn⟩ : c ≠ '$' ∧ c ≠ '\n' := by simpa [isLiteralChar] using hc
    unfold TextTemplate.evalWithinLine
    rw [readLineParts]
    simp only [if_neg hd, if_neg hn]
    cases readLineParts (v.dropWhile isLiteralChar) with
    | error t => exact (Truncation.eval_bind t _).symm
    | ok R =>
      simp only [evalParts_text, Inquiry.bind_assoc, Inquiry.bind, List.append_assoc]

/-- So is any literal text, also where the stretch that it belongs to goes on behind it. -/
theorem evalWithinLine_append {t : Text} (ht : ∀ c ∈ t, isLiteralChar c = true) (s : Text) :
    evalWithinLine m (t ++ s) = (evalWithinLine m s).bind fun u => .pure (t ++ u) := by
  have hs := isRun_takeWhile isLiteralChar s
  have hts : IsRun isLiteralChar (t ++ s) (t ++ s.takeWhile isLiteralChar) (s.dropWhile isLiteralChar) :=
    ⟨by rw [List.append_assoc, ← hs.split], List.forall_mem_append.2 ⟨ht, hs.all⟩, hs.stop⟩
  rw [hts.evalWithinLine, hs.evalWithinLine, Inquiry.bind_assoc]
  simp only [Inquiry.bind, List.append_assoc]

/-! ## From the start of a line on -/

/-- Behind a line the text goes on with the next. -/
theorem evalText_of_readLine {s : Text} {R : Reading Line (max 1 s.length)} (hs : s ≠ [])
    (h : readLine s = .ok R) :
    evalText m s = (R.value.eval m).bind fun t => (evalText m R.rest).bind fun u => .pure (t ++ u) := by
  unfold evalText
  rw [Template.read_of_readLine hs h]
  cases Template.read R.rest with
  | ok ls => rfl
  | error t =>
    simp only [Truncation.eval_after, Truncation.eval_bind]
    cases R.value with
    | elided => rfl
    | content indent parts =>
      rw [Line.eval_content, Inquiry.bind_assoc]
      rfl

theorem evalText_of_readLine_error {s : Text} {t : Truncation} (hs : s ≠ [])
    (h : readLine s = .error t) : evalText m s = t.eval m := by
  rw [evalText, Template.read_of_readLine_error hs h]

/-- A text whose first line holds more than a comment is evaluated from within that line. -/
theorem evalText_eq_evalWithinLine {s : Text} (hs : s ≠ []) (hcomment : ¬ StartsWithComment s) :
    evalText m s = evalWithinLine m s := by
  have hskip : skipCommentLine? (s.dropWhile isBlank) = none := skipCommentLine?_eq_none.2 hcomment
  have hrun := isRun_takeWhile isBlank s
  have hsplit : evalWithinLine m s =
      (evalWithinLine m (s.dropWhile isBlank)).bind fun u => .pure (s.takeWhile isBlank ++ u) := by
    rw [← evalWithinLine_append fun c hc => isLiteralChar_of_isBlank (hrun.all c hc), ← hrun.split]
  rw [hsplit, evalWithinLine]
  cases hline : readLineParts (s.dropWhile isBlank) with
  | error t =>
    have hread : readLine s = .error t := readLine_of_error hskip hline
    rw [evalText_of_readLine_error hs hread]
    exact (Truncation.eval_bind t _).symm
  | ok R =>
    obtain ⟨k, hread⟩ := readLine_of_ok hskip hline
    rw [evalText_of_readLine hs hread]
    simp only [Line.eval_content, Inquiry.bind_assoc, Inquiry.bind, List.append_assoc, List.cons_append,
      List.nil_append]

/-! ## Lines without dollar signs -/

/-- Without a dollar sign in it, a text starts with a comment at most where it is blank and what follows does. -/
theorem StartsWithComment.of_append {t s : Text} (ht : '$' ∉ t) (h : StartsWithComment (t ++ s)) :
    (∀ c ∈ t, isBlank c = true) ∧ StartsWithComment s := by
  have hrun := isRun_takeWhile isBlank t
  unfold StartsWithComment at h ⊢
  rw [hrun.split, List.append_assoc, List.dropWhile_append_of_pos hrun.all] at h
  cases hrest : t.dropWhile isBlank with
  | nil =>
    rw [hrest, List.nil_append] at h
    refine ⟨?_, h⟩
    rw [hrun.split, hrest, List.append_nil]
    exact hrun.all
  | cons c r =>
    have hc := hrun.stop c (by rw [hrest]; rfl)
    rw [hrest, List.cons_append, List.dropWhile_cons, hc] at h
    obtain ⟨u, hu⟩ := h
    obtain rfl : '$' = c := (List.cons.inj hu).1
    refine absurd ?_ ht
    rw [hrun.split, hrest]
    simp

theorem isLiteralChar_of_ne {t : Text} (hd : '$' ∉ t) (hn : '\n' ∉ t) : ∀ c ∈ t, isLiteralChar c = true := by
  intro c hc
  have hne : c ≠ '$' ∧ c ≠ '\n' := ⟨fun h => hd (h ▸ hc), fun h => hn (h ▸ hc)⟩
  simpa [isLiteralChar] using hne

/-- A line without dollar signs stands for itself, in front of whatever follows. -/
theorem evalText_append_line {l : Text} (hd : '$' ∉ l) (hn : '\n' ∉ l) (s : Text) :
    evalText m (l ++ '\n' :: s) = (evalText m s).bind fun u => .pure (l ++ '\n' :: u) := by
  have hcomment : ¬ StartsWithComment (l ++ '\n' :: s) := by
    intro h
    obtain ⟨u, hu⟩ := (h.of_append hd).2
    rw [List.dropWhile_cons] at hu
    cases hu
  rw [evalText_eq_evalWithinLine (by simp) hcomment, evalWithinLine_append (isLiteralChar_of_ne hd hn),
    evalWithinLine_newline, Inquiry.bind_assoc]
  rfl

/-- So do many. -/
theorem evalText_append_lines {ls : List Text} (hls : ∀ l ∈ ls, '$' ∉ l ∧ '\n' ∉ l) (s : Text) :
    evalText m (unlines ls ++ s) = (evalText m s).bind fun u => .pure (unlines ls ++ u) := by
  induction ls with
  | nil => exact (Inquiry.bind_pure _).symm
  | cons l ls ih =>
    rw [List.forall_mem_cons] at hls
    rw [unlines_cons, evalText_append_line hls.1.1 hls.1.2, ih hls.2, Inquiry.bind_assoc]
    simp only [Inquiry.bind, unlines_cons]

end TextTemplate

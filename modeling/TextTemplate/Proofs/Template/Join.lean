import TextTemplate.Proofs.Template.Evaluation

/-!
# An expansion joined to the next line

An expansion at the front of a line, with a join behind it, is followed by what the next line produces. Alone that
line has its blanks as an indentation, here it has them as text; what it produces is the same, unless it is
elided.

Main results:
* `PiecesAt.of_blanks`: the parts of a line, with and without its blanks.
* `Template.Derives.of_join`: an expansion, a join and a template.
-/

namespace TextTemplate

theorem ExpansionAt.unique {e e' : Expansion} {s r r' : Text} (h : ExpansionAt e s r)
    (h' : ExpansionAt e' s r') : e = e' ∧ r = r' := by
  obtain ⟨v, k, rfl, hv⟩ := h.read
  obtain ⟨v', k', hs, hv'⟩ := h'.read
  cases hs
  rw [hv] at hv'
  cases hv'
  exact ⟨rfl, rfl⟩

/-! ## The parts of a line -/

theorem PiecesAt.ne_nil_of_cons {ps : List Part} {c : Char} {s u r : Text} (hc : c ≠ '\n')
    (h : PiecesAt ps (c :: s) u) (hend : LineEndAt u r) : ∃ p qs v, ps = p :: qs ∧
      PieceAt p (c :: s) v ∧ PiecesAt qs v u := by
  cases h with
  | nil =>
    cases hend
    exact absurd rfl hc
  | cons hp hps => exact ⟨_, _, _, rfl, hp, hps⟩

/-- At a dollar sign a line goes on with an expansion. -/
theorem PiecesAt.of_dollar {ps : List Part} {s u r : Text} (h : PiecesAt ps ('$' :: s) u)
    (hend : LineEndAt u r) : ∃ e qs v, ps = .expansion e :: qs ∧ ExpansionAt e ('$' :: s) v ∧
      PiecesAt qs v u := by
  obtain ⟨p, qs, v, rfl, hp, hqs⟩ := h.ne_nil_of_cons (by decide) hend
  cases hp with
  | literal hrun hne =>
    obtain ⟨c, w, hc, hlit, -⟩ := hrun.exists_cons hne
    cases hc
    exact absurd hlit (by decide)
  | expansion he => exact ⟨_, qs, v, rfl, he, hqs⟩

theorem evalParts_text (m : Semantics) (t : Text) (ps : List Part) :
    evalParts m (.text t :: ps) = (evalParts m ps).bind fun u => .pure (t ++ u) := by
  rw [evalParts_cons, Part.eval]
  rfl

theorem evalParts_join (m : Semantics) (ps : List Part) :
    evalParts m (.expansion .join :: ps) = evalParts m ps := by
  rw [evalParts_cons, Part.eval, Expansion.eval]
  exact Inquiry.bind_pure _

theorem evalParts_singleton (m : Semantics) (t : Text) : evalParts m [.text t] = .pure t := by
  rw [evalParts_text, evalParts]
  exact congrArg Inquiry.pure (List.append_nil t)

/-- Words of nothing but text stand for themselves. -/
theorem evalWords_texts (m : Semantics) (ts : List Text) :
    evalWords m (ts.map fun t => [.text t]) = .pure ts := by
  induction ts with
  | nil => rw [List.map_nil, evalWords]; rfl
  | cons t ts ih =>
    rw [List.map_cons, evalWords, ih, evalParts_singleton]
    rfl

theorem Expansion.eval_directive_texts (m : Semantics) (start : Text) (ts : List Text) :
    (Expansion.directive start (ts.map fun t => [.text t])).eval m = m.directive start ts := by
  rw [Expansion.eval, evalWords_texts]
  rfl

theorem isLiteralChar_of_isBlank {c : Char} (hc : isBlank c = true) : isLiteralChar c = true := by
  simp only [isBlank, Bool.or_eq_true, beq_iff_eq] at hc
  rcases hc with rfl | rfl <;> rfl

/-- Blanks at the front of a line are text before what the line produces without them. -/
theorem PiecesAt.of_blanks {b : Text} (hb : ∀ c ∈ b, isBlank c = true) {ps : List Part}
    {s u r : Text} (h : PiecesAt ps (b ++ s) u) (hend : LineEndAt u r) :
    ∃ qs, PiecesAt qs s u ∧
      ∀ m, evalParts m ps = (evalParts m qs).bind fun t => .pure (b ++ t) := by
  cases b with
  | nil => exact ⟨ps, h, fun m => (Inquiry.bind_pure _).symm⟩
  | cons c b =>
    have hall : ∀ d ∈ c :: b, isLiteralChar d = true := fun d hd => isLiteralChar_of_isBlank (hb d hd)
    have hc := hall c List.mem_cons_self
    have hne : c ≠ '\n' ∧ c ≠ '$' := by
      constructor <;> rintro rfl <;> exact absurd hc (by decide)
    obtain ⟨p, qs, v, rfl, hp, hqs⟩ := h.ne_nil_of_cons hne.1 hend
    cases hp with
    | expansion he =>
      obtain ⟨⟨w, hw, -⟩, -⟩ := he.starts
      exact absurd (List.cons.inj hw).1 hne.2
    | literal hrun _ =>
      rename_i t _
      have hfront : c :: b ++ s.takeWhile isLiteralChar = t := by
        rw [← List.takeWhile_append_of_pos hall]
        exact hrun.takeWhile_eq
      have hrest : s.dropWhile isLiteralChar = v := by
        rw [← List.dropWhile_append_of_pos hall]
        exact hrun.dropWhile_eq
      rw [← hrest] at hqs
      by_cases hnil : s.takeWhile isLiteralChar = []
      · have hs : s.dropWhile isLiteralChar = s := by
          conv => rhs; rw [← List.takeWhile_append_dropWhile (p := isLiteralChar) (l := s), hnil]
          rfl
        rw [hs] at hqs
        refine ⟨qs, hqs, fun m => ?_⟩
        rw [evalParts_text, ← hfront, hnil, List.append_nil]
      · refine ⟨.text (s.takeWhile isLiteralChar) :: qs,
          .cons (.literal (isRun_takeWhile _ s) hnil) hqs, fun m => ?_⟩
        rw [evalParts_text, evalParts_text, ← hfront, Inquiry.bind_assoc]
        simp only [Inquiry.bind, List.append_assoc]

/-! ## The next line -/

/-- A line that starts with a dollar sign and is not elided has no indentation. -/
theorem LineAt.of_dollar {l : Line} {s r : Text} (h : LineAt l ('$' :: s) r)
    (hs : ¬ ['-', '-'] <+: s) : ∃ ps u, l = .content [] ps ∧ PiecesAt ps ('$' :: s) u ∧
      LineEndAt u r := by
  generalize hstart : '$' :: s = t at h
  cases h with
  | elided hb hrun hend =>
    rename_i b v _ _
    cases b with
    | nil =>
      cases hstart
      exact absurd ⟨v, rfl⟩ hs
    | cons c b =>
      cases hstart
      exact absurd (hb '$' List.mem_cons_self) (by decide)
  | content hrun hnot hps hend =>
    rename_i b u v ps
    subst hstart
    obtain rfl : b = [] := hrun.takeWhile_eq.symm
    obtain rfl : u = '$' :: s := hrun.dropWhile_eq.symm
    exact ⟨ps, v, rfl, hps, hend⟩

/-- A line that no comment fills is its blanks and its parts, whatever stands before it in the same line. -/
theorem PiecesAt.lineAt {ps : List Part} {s u r : Text} (h : PiecesAt ps s u)
    (hend : LineEndAt u r) (hs : ¬ ['$', '-', '-'] <+: s.dropWhile isBlank) :
    ∃ l, LineAt l s r ∧ ∀ m, l.eval m = (evalParts m ps).bind fun t => .pure (t ++ ['\n']) := by
  have hrun := isRun_takeWhile isBlank s
  rw [hrun.split] at h
  obtain ⟨qs, hqs, heval⟩ := h.of_blanks hrun.all hend
  refine ⟨.content (s.takeWhile isBlank) qs, .content hrun hs hqs hend, fun m => ?_⟩
  rw [heval, Inquiry.bind_assoc]
  rfl

/-- Behind an expansion and a join, a template goes on with what it is without them. -/
theorem Template.Derives.of_join {ts : Template} {e : Expansion} {s v : Text} (h : ts.Derives s)
    (he : ExpansionAt e s ('$' :: '\n' :: v)) (hv : v ≠ [])
    (hcomment : ¬ ['$', '-', '-'] <+: v.dropWhile isBlank) :
    ∃ ls : Template, ls.Derives v ∧ ∀ m, Template.eval m ts =
      (e.eval m).bind fun t => (Template.eval m ls).bind fun u => .pure (t ++ u) := by
  obtain ⟨⟨w, rfl, hw⟩, -⟩ := he.starts
  cases h with
  | cons hl hne hls =>
    rename_i r l ls
    have hdashes : ¬ ['-', '-'] <+: w := by
      rintro ⟨w, rfl⟩
      cases he with
      | comment hrun => exact absurd (hrun.stop '$' rfl) (by decide)
    obtain ⟨ps, u, rfl, hps, hend⟩ := hl.of_dollar hdashes
    obtain ⟨e', qs, v', rfl, he', hqs⟩ := hps.of_dollar hend
    obtain ⟨rfl, rfl⟩ := he.unique he'
    obtain ⟨e'', rs, v'', rfl, he'', hrs⟩ := hqs.of_dollar hend
    cases he''
    obtain ⟨l, hl', heval⟩ := hrs.lineAt hend hcomment
    have hr : r ≠ v := by
      rintro rfl
      cases hend with
      | newline => exact absurd hrs.starts.1.length_le (Nat.not_succ_le_self _)
      | endOfText => exact hv rfl
    refine ⟨l :: ls, .cons hl' hr hls, fun m => ?_⟩
    rw [Template.eval_cons, Line.eval_content, evalParts_cons, Part.eval, evalParts_join,
      Template.eval_cons, heval]
    simp only [Inquiry.bind_assoc, Inquiry.bind, List.append_assoc, List.nil_append]

end TextTemplate

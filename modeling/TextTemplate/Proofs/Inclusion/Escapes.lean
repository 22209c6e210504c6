import Mathlib.Data.List.DropRight
import TextTemplate.Proofs.Inclusion.Concatenation
import TextTemplate.Proofs.Template.WithinLine

/-!
# Dollar signs that stand for nothing else

Two dollar signs stand for one, whatever they stand in front of, so that every text can be written as a template: with
its dollar signs doubled. A dollar sign at the end of a line joins the next one, as if neither it nor the newline were
there, unless the second line would then start with another meaning.

Main results:
* `evalText_doubleDollars`, `evalText_join`: doubled dollar signs and joins, in whatever semantics.
* `Context.expand_doubled`: every text is what a template expands to, up to its last newline.
* `Context.expand_joined`: a text with a join and the one without.
-/

namespace TextTemplate

/-! ## Specification -/

/-- The text with each of its dollar signs doubled. -/
def doubleDollars (s : Text) : Text := s.flatMap fun c => if c = '$' then ['$', '$'] else [c]

/-- What stands behind the last newline of a text. -/
def lastLine (s : Text) : Text := s.rtakeWhile isLineChar

/-! ## Doubled dollar signs -/

theorem doubleDollars_eq_self {s : Text} (hs : '$' ∉ s) : doubleDollars s = s := by
  induction s with
  | nil => rfl
  | cons c s ih =>
    rw [List.mem_cons, not_or] at hs
    rw [doubleDollars, List.flatMap_cons, if_neg (Ne.symm hs.1)]
    exact congrArg (c :: ·) (ih hs.2)

theorem not_startsWithComment_doubleDollars (s : Text) : ¬ StartsWithComment (doubleDollars s) := by
  induction s with
  | nil => simp [StartsWithComment, doubleDollars]
  | cons c s ih =>
    rw [doubleDollars, List.flatMap_cons]
    by_cases hc : c = '$'
    · -- two dollar signs start no comment
      rw [if_pos hc]
      rintro ⟨u, hu⟩
      cases hu
    · rw [if_neg hc]
      intro h
      exact ih (h.of_append (by simpa using Ne.symm hc)).2

/-- A text with its dollar signs doubled stands for itself, from the start of a line on and from within one. -/
theorem evalText_doubleDollars (m : Semantics) (s : Text) :
    evalText m (doubleDollars s) = .pure (closeLine s) ∧
      evalWithinLine m (doubleDollars s) = .pure (if s = [] then ['\n'] else closeLine s) := by
  induction s with
  | nil => exact ⟨evalText_nil m, evalWithinLine_nil m⟩
  | cons c s ih =>
    have hwithin : evalWithinLine m (doubleDollars (c :: s)) = .pure (closeLine (c :: s)) := by
      rw [doubleDollars, List.flatMap_cons]
      by_cases hd : c = '$'
      · subst hd
        rw [if_pos rfl, closeLine_cons (by decide)]
        exact (evalWithinLine_dollars m _).trans (congrArg (Inquiry.bind · _) ih.2)
      · rw [if_neg hd]
        by_cases hn : c = '\n'
        · subst hn
          rw [closeLine_newline]
          exact (evalWithinLine_newline m _).trans (congrArg (Inquiry.bind · _) ih.1)
        · have hlit : ∀ d ∈ [c], isLiteralChar d = true := by simp [isLiteralChar, hd, hn]
          rw [closeLine_cons hn]
          exact (evalWithinLine_append hlit _).trans (congrArg (Inquiry.bind · _) ih.2)
    have hne : doubleDollars (c :: s) ≠ [] := by
      rw [doubleDollars, List.flatMap_cons]
      split_ifs <;> exact List.cons_ne_nil _ _
    rw [if_neg (List.cons_ne_nil c s)]
    exact ⟨(evalText_eq_evalWithinLine hne (not_startsWithComment_doubleDollars _)).trans hwithin, hwithin⟩

/-! ## Joins -/

theorem lastLine_append {ls : List Text} {last : Text} (hlast : '\n' ∉ last) :
    lastLine (unlines ls ++ last) = last := by
  have hrun : IsRun isLineChar (unlines ls ++ last).reverse last.reverse (unlines ls).reverse := by
    refine ⟨List.reverse_append, fun c hc => all_isLineChar hlast c (List.mem_reverse.1 hc), fun c hc => ?_⟩
    rw [List.head?_reverse] at hc
    rw [getLast?_unlines ls c hc]
    rfl
  rw [lastLine, List.rtakeWhile, hrun.takeWhile_eq, List.reverse_reverse]

theorem not_startsWithComment_join (s : Text) : ¬ StartsWithComment ('$' :: '\n' :: s) := by
  rintro ⟨u, hu⟩
  cases hu

/-- A join can be left out, where it does not stand alone at the end of the text, and where what follows is not a
comment that would then fill its line. -/
theorem evalText_join (m : Semantics) {u v : Text} (hu : '$' ∉ u) (hne : v ≠ [] ∨ lastLine u ≠ [])
    (hcomment : ¬ ((∀ c ∈ lastLine u, isBlank c = true) ∧ StartsWithComment v)) :
    evalText m (u ++ '$' :: '\n' :: v) = evalText m (u ++ v) := by
  obtain ⟨ls, last, rfl, hls, hlast⟩ := exists_lines u
  rw [lastLine_append hlast] at hne hcomment
  rw [List.mem_append, not_or] at hu
  have hlines : ∀ l ∈ ls, '$' ∉ l ∧ '\n' ∉ l := by
    intro l hl
    refine ⟨fun hd => hu.1 ?_, hls l hl⟩
    exact List.mem_flatMap.2 ⟨l, hl, List.mem_append_left _ hd⟩
  have hboth : last ++ v ≠ [] := by
    rw [ne_eq, List.append_eq_nil_iff]
    exact fun h => hne.elim (· h.2) (· h.1)
  have hlit := isLiteralChar_of_ne hu.2 hlast
  have hlastLine : evalText m (last ++ '$' :: '\n' :: v) = evalText m (last ++ v) :=
    calc evalText m (last ++ '$' :: '\n' :: v)
        = evalWithinLine m (last ++ '$' :: '\n' :: v) :=
          evalText_eq_evalWithinLine (by simp) fun h => not_startsWithComment_join v (h.of_append hu.2).2
      _ = evalWithinLine m (last ++ v) := by
          rw [evalWithinLine_append hlit, evalWithinLine_join, evalWithinLine_append hlit]
      _ = evalText m (last ++ v) :=
          (evalText_eq_evalWithinLine hboth fun h => hcomment (h.of_append hu.2)).symm
  rw [List.append_assoc, evalText_append_lines hlines, hlastLine, List.append_assoc,
    evalText_append_lines hlines]

namespace Context

/-! ## Main theorems -/

/-- In every context a text with its dollar signs doubled expands to itself, with a newline behind its last line, and
asks for no file; so does a text without dollar signs as it is. -/
theorem expand_doubled (c : Context) (files : Files) (source s : Text) :
    (c.expand source (doubleDollars s)).run files = ⟨[], .ok (closeLine s)⟩ ∧
      ('$' ∉ s → (c.expand source s).run files = ⟨[], .ok (closeLine s)⟩) := by
  have hdoubled : (c.expand source (doubleDollars s)).run files = ⟨[], .ok (closeLine s)⟩ := by
    rw [run_expand, (evalText_doubleDollars c.meaning s).1]
    rfl
  refine ⟨hdoubled, fun hs => ?_⟩
  rw [doubleDollars_eq_self hs] at hdoubled
  exact hdoubled

/-- Behind a text without dollar signs a join can be left out: the same files are asked for, and the expansion ends in
the same way. If it fails with the error of an included file, the error is the same, and else the cause and the place
in what follows are. This needs that there is something in the joined lines, and that leaving out the join does not
make the second of them a line with only a comment. -/
theorem expand_joined {u v : Text} (hu : '$' ∉ u) (hne : v ≠ [] ∨ lastLine u ≠ [])
    (hcomment : ¬ ((∀ ch ∈ lastLine u, isBlank ch = true) ∧ StartsWithComment v)) (c : Context)
    (files : Files) (source : Text) :
    let joined := u ++ '$' :: '\n' :: v
    let r := (c.expand source joined).run files
    let r' := (c.expand source (u ++ v)).run files
    r.questions = r'.questions ∧
    (∀ o, r.result = .ok o ↔ r'.result = .ok o) ∧
    ∀ err, r.result = .error err →
      (c.HandsOn files source joined err → r'.result = .error err) ∧
      (¬ c.HandsOn files source joined err → ∃ d : Defect,
        err = .source (d.inSource source joined) ∧
        r'.result = .error (.source (d.inSource source (u ++ v)))) := by
  intro joined r r'
  have heval : evalText c.meaning joined = evalText c.meaning (u ++ v) :=
    evalText_join c.meaning hu hne hcomment
  refine ⟨?_, fun o => ?_, fun err herr => ?_⟩
  · simp only [r, r', run_expand, heval]
  · simp only [r, r', expand_eq_ok_iff, heval]
  · obtain ⟨f, hf, rfl⟩ := expand_eq_error_iff.1 herr
    have herr' : r'.result = .error (f.inSource source (u ++ v)) := by
      rw [heval] at hf
      exact expand_eq_error_iff.2 ⟨f, hf, rfl⟩
    cases f with
    | here d => exact ⟨fun hands => absurd hands (not_handsOn_of_here source hf _), fun _ => ⟨d, rfl, herr'⟩⟩
    | elsewhere err => exact ⟨fun _ => herr', fun hnot => absurd (handsOn_of_elsewhere source hf) hnot⟩

/-- A join in an indentation, before an include that goes over two lines and a comment. -/
theorem expand_joined_indented :
    '$' ∉ "a\n\t".toList ∧ lastLine "a\n\t".toList ≠ [] ∧
    ¬ StartsWithComment " $(include-file\nf)$-- b".toList ∧
    (((ofRoot .empty ⟨"r".toList⟩).expand "r".toList
      ("a\n\t".toList ++ " $(include-file\nf)$-- b".toList)).run
        (FileTable.ofList [(⟨"f".toList⟩, .ok "x".toList)]).read) =
      ⟨[⟨[⟨"r".toList⟩], ⟨"f".toList⟩⟩], .ok "a\n\t x\n\n".toList⟩ := by
  obtain ⟨c, hc⟩ : ∃ c, c = ofRoot .empty ⟨"r".toList⟩ := ⟨_, rfl⟩
  obtain ⟨files, hfiles⟩ : ∃ files, files = (FileTable.ofList [(⟨"f".toList⟩, .ok "x".toList)]).read := ⟨_, rfl⟩
  have hu : '$' ∉ "a\n\t".toList := by decide
  have hne : lastLine "a\n\t".toList ≠ [] := by decide
  have hcomment : ¬ StartsWithComment " $(include-file\nf)$-- b".toList := by
    unfold StartsWithComment
    decide
  have hjoined : (c.expand "r".toList ("a\n\t".toList ++ '$' :: '\n' ::
      " $(include-file\nf)$-- b".toList)).run files =
        ⟨[⟨[⟨"r".toList⟩], ⟨"f".toList⟩⟩], .ok "a\n\t x\n\n".toList⟩ := by
    rw [hc, hfiles]
    decide +kernel
  obtain ⟨hquestions, hresult, -⟩ := expand_joined hu (.inr hne) (fun h => hcomment h.2) c files "r".toList
  rw [hjoined] at hquestions hresult
  rw [← hc, ← hfiles]
  exact ⟨hu, hne, hcomment, congrArg₂ Inquiry.Run.mk hquestions.symm ((hresult _).1 rfl)⟩

end Context

end TextTemplate

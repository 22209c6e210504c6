import TextTemplate.Proofs.Inclusion.Concatenation

/-!
# The newline at the end of a template

A line ends with a newline or with the text, and both are derived in the same places: where the last line of a
template ends with the text, it ends with a newline put there, and where it ends with a newline, it ends without it.
Only a dollar sign makes the newline something else, a join to a line that is not there.

Main results:
* `Template.Derives.append_newline`, `Template.Derives.of_append_newline`: templates with and without a newline at
  the end.
* `evalText_closeLine`: their evaluation.
* `Context.expand_final_newline`: their expansion.
-/

namespace TextTemplate

/-! ## What stands in front of the last newline -/

theorem getLast?_ne_of_suffix {s r : Text} {c : Char} (h : r <:+ s) (hs : s.getLast? ≠ some c) :
    r.getLast? ≠ some c := by
  obtain ⟨t, rfl⟩ := h
  intro hr
  rw [List.getLast?_append, hr] at hs
  exact hs rfl

/-- What is left of a text with a newline at its end has it as well. -/
theorem exists_eq_concat_of_suffix {s r : Text} {c : Char} (h : r <:+ s ++ [c]) (hr : r ≠ []) :
    ∃ u, r = u ++ [c] ∧ u <:+ s := by
  rcases List.suffix_concat_iff.1 h with rfl | ⟨u, rfl, hu⟩
  · exact absurd rfl hr
  · exact ⟨u, rfl, hu⟩

/-! ## Lines with and without their last newline -/

theorem LineEndAt.append_newline {s r : Text} (h : LineEndAt s r) (hs : s.getLast? ≠ some '\n') :
    LineEndAt (s ++ ['\n']) (closeLine r) := by
  cases h with
  | newline =>
    have hr : r ≠ [] := by
      rintro rfl
      exact hs rfl
    rw [closeLine_of_ne hr (getLast?_ne_of_suffix (List.suffix_cons _ r) hs)]
    exact .newline
  | endOfText => exact .newline

theorem LineEndAt.of_append_newline {s r : Text} (h : LineEndAt (s ++ ['\n']) r)
    (hs : s.getLast? ≠ some '\n') : ∃ u, LineEndAt s u ∧ r = closeLine u := by
  cases s with
  | nil =>
    cases h
    exact ⟨[], .endOfText, rfl⟩
  | cons c s =>
    cases h
    have hne : s ≠ [] := by
      rintro rfl
      exact hs rfl
    exact ⟨s, .newline, (closeLine_of_ne hne (getLast?_ne_of_suffix (List.suffix_cons _ s) hs)).symm⟩

theorem LineAt.append_newline {l : Line} {s r : Text} (h : LineAt l s r) (hs : s.getLast? ≠ some '\n') :
    LineAt (l.inFrontOf ['\n']) (s ++ ['\n']) (closeLine r) := by
  have hnl : FollowsLine ['\n'] := .newline []
  cases h with
  | elided hb h hend =>
    rename_i b s t u
    have hu : u <:+ b ++ '$' :: '-' :: '-' :: s := h.suffix.trans (suffix_of_comment b s)
    rw [List.append_assoc]
    exact .elided hb (h.inFrontOf (.inr (hnl.head?_eq_false rfl)))
      (hend.append_newline (getLast?_ne_of_suffix hu hs))
  | content h hnot hps hend =>
    rename_i b u v ps
    have hv : v <:+ s := hps.starts.1.trans h.suffix
    have hnot' : ¬ ['$', '-', '-'] <+: u ++ ['\n'] := by
      rw [List.prefix_concat_iff]
      rintro (heq | hpre)
      · have hlast : ['$', '-'] ++ ['-'] = u ++ ['\n'] := heq
        exact absurd (List.append_inj' hlast rfl).2 (by decide)
      · exact hnot hpre
    exact .content (h.inFrontOf (.inr (hnl.head?_eq_false rfl))) hnot' (hps.inFrontOf (.inr hnl))
      (hend.append_newline (getLast?_ne_of_suffix hv hs))

/-- Where no join stands at the very end, a line does without the newline there. -/
theorem LineAt.of_append_newline {l : Line} {s r : Text} (h : LineAt l (s ++ ['\n']) r)
    (hends : EndsLine (s ++ ['\n'])) (hs : s.getLast? ≠ some '\n') :
    ∃ l' u, LineAt l' s u ∧ r = closeLine u := by
  generalize hs' : s ++ ['\n'] = s' at h hends
  cases h with
  | elided hb h hend =>
    rename_i b v t u
    have hv : v <:+ s ++ ['\n'] := by
      rw [hs']
      exact suffix_of_comment b v
    -- a newline stands behind the comment, so the one at the end of the text is not part of it
    obtain ⟨u', rfl, -⟩ := hends.of_comment hb h
    obtain ⟨v, rfl, -⟩ := exists_eq_concat_of_suffix hv (ne_nil_of_suffix h.suffix (List.cons_ne_nil _ _))
    obtain ⟨u, hu, huv⟩ := exists_eq_concat_of_suffix h.suffix (List.cons_ne_nil _ _)
    rw [hu] at h hend
    obtain rfl : s = b ++ '$' :: '-' :: '-' :: v := by
      have hsplit : b ++ '$' :: '-' :: '-' :: (v ++ ['\n']) = b ++ '$' :: '-' :: '-' :: v ++ ['\n'] := by simp
      exact List.append_cancel_right (hs'.trans hsplit)
    have hus : u <:+ b ++ '$' :: '-' :: '-' :: v := huv.trans (suffix_of_comment b v)
    obtain ⟨w, hend', rfl⟩ := hend.of_append_newline (getLast?_ne_of_suffix hus hs)
    exact ⟨_, w, .elided hb h.of_inFrontOf hend', rfl⟩
  | content h hnot hps hend =>
    rename_i b u v ps
    subst hs'
    have hne : s ++ ['\n'] ≠ [] := by simp
    have hu := h.ne_nil (by decide) hends hne
    have hv := (hps.endsLine (h.endsLine (by decide) hends) hu).2
    obtain ⟨u, rfl, hus⟩ := exists_eq_concat_of_suffix h.suffix hu
    obtain ⟨v, rfl, hvu⟩ := exists_eq_concat_of_suffix hps.starts.1 hv
    obtain ⟨ps', hps'⟩ := hps.of_inFrontOf rfl
    obtain ⟨w, hend', rfl⟩ := hend.of_append_newline (getLast?_ne_of_suffix (hvu.trans hus) hs)
    have hnot' : ¬ ['$', '-', '-'] <+: u := fun hpre => hnot (hpre.trans (List.prefix_append u _))
    exact ⟨_, w, .content h.of_inFrontOf hnot' hps' hend', rfl⟩

/-! ## Templates -/

theorem Template.Derives.append_newline {ts : Template} {s : Text} (h : ts.Derives s)
    (hs : s.getLast? ≠ some '\n') : (ts.inFrontOf ['\n']).Derives (closeLine s) := by
  induction h with
  | nil => exact .nil
  | cons hl hne _ ih =>
    rename_i s r l ls _
    have hr := getLast?_ne_of_suffix hl.starts.1 hs
    have hs' := hl.ne_nil hne
    have hne' : closeLine r ≠ closeLine s := fun heq => hne (closeLine_inj hr hs heq)
    rw [closeLine_of_ne hs' hs] at hne' ⊢
    exact .cons (hl.append_newline hs) hne' (ih hr)

theorem Template.Derives.of_append_newline {ts : Template} {s : Text} (h : ts.Derives (closeLine s))
    (hends : EndsLine (closeLine s)) (hs : s.getLast? ≠ some '\n') : ∃ ts' : Template, ts'.Derives s := by
  generalize hs' : closeLine s = s' at h hends
  induction h generalizing s with
  | nil =>
    obtain rfl : s = [] := closeLine_inj (r := []) hs (by decide) hs'
    exact ⟨_, .nil⟩
  | cons hl hne _ ih =>
    rename_i s' r l ls _
    subst hs'
    have hs' : s ≠ [] := by
      rintro rfl
      exact hl.ne_nil hne rfl
    rw [closeLine_of_ne hs' hs] at hl hne hends
    have hr := (hl.append hends (by simp) []).1
    obtain ⟨l', u, hl', rfl⟩ := hl.of_append_newline hends hs
    obtain ⟨ts, hts⟩ := ih (getLast?_ne_of_suffix hl'.starts.1 hs) rfl hr
    refine ⟨l' :: ts, .cons hl' ?_ hts⟩
    rintro rfl
    exact hne (closeLine_of_ne hs' hs)

/-! ## Evaluation -/

/-- With a newline at its end a template is evaluated as it is without. -/
theorem evalText_closeLine {m : Semantics} (hm : m.Uniform) {ts : Template} {s : Text} (h : ts.Derives s)
    (hs : s.getLast? ≠ some '\n') :
    evalText m (closeLine s) = (evalText m s).mapError (.inFrontOf ['\n']) := by
  unfold evalText
  rw [h.read, (h.append_newline hs).read]
  exact Template.eval_inFrontOf hm _ ts

namespace Context

/-- The expansion of a template is the same with a newline at its end, whether or not it fails. -/
theorem run_expand_append_newline {ts : Template} {t : Text} (hts : ts.Derives t) (hne : t ≠ [])
    (ht : t.getLast? ≠ some '\n') (c : Context) (files : Files) (source : Text) :
    (c.expand source (t ++ ['\n'])).run files = (c.expand source t).run files := by
  have heval := evalText_closeLine c.meaning_uniform hts ht
  rw [closeLine_of_ne hne ht] at heval
  rw [run_expand, run_expand, heval, Inquiry.run_mapError]
  cases ((evalText c.meaning t).run files).result with
  | ok o => rfl
  | error f => exact congrArg (Inquiry.Run.mk _) (congrArg Except.error (f.inSource_inFrontOf source t _))

/-! ## Main theorem -/

/-- A text that expands does so with a newline at its end, in the same run. If it ends with an even number of dollar
signs, possibly none, it also expands without the newline where it does with it. -/
theorem expand_final_newline {t : Text} (hne : t ≠ []) (ht : t.getLast? ≠ some '\n') (c : Context)
    (files : Files) (source : Text) :
    let r := (c.expand source t).run files
    let r' := (c.expand source (t ++ ['\n'])).run files
    (∀ o, r.result = .ok o → r' = r) ∧
      (EndsLine (t ++ ['\n']) → ∀ o, r'.result = .ok o → r = r') := by
  intro r r'
  constructor
  · intro o ho
    obtain ⟨ts, hts⟩ := exists_derives_of_run_evalText (expand_eq_ok_iff.1 ho)
    exact run_expand_append_newline hts hne ht c files source
  · intro hends o ho
    obtain ⟨ts, hts⟩ := exists_derives_of_run_evalText (expand_eq_ok_iff.1 ho)
    rw [← closeLine_of_ne hne ht] at hts hends
    obtain ⟨ts, hts⟩ := hts.of_append_newline hends ht
    exact (run_expand_append_newline hts hne ht c files source).symm

/-- Two dollar signs at the end, behind an include. -/
theorem expand_final_newline_dollars :
    "$(include-file f)$$".toList ≠ [] ∧ "$(include-file f)$$".toList.getLast? ≠ some '\n' ∧
    EndsLine ("$(include-file f)$$".toList ++ ['\n']) ∧
    ((ofRoot .empty ⟨"r".toList⟩).expand "r".toList "$(include-file f)$$".toList).run
        (FileTable.ofList [(⟨"f".toList⟩, .ok "x\n".toList)]).read =
      ⟨[⟨[⟨"r".toList⟩], ⟨"f".toList⟩⟩], .ok "x\n$\n".toList⟩ ∧
    ((ofRoot .empty ⟨"r".toList⟩).expand "r".toList ("$(include-file f)$$".toList ++ ['\n'])).run
        (FileTable.ofList [(⟨"f".toList⟩, .ok "x\n".toList)]).read =
      ⟨[⟨[⟨"r".toList⟩], ⟨"f".toList⟩⟩], .ok "x\n$\n".toList⟩ := by
  obtain ⟨c, hc⟩ : ∃ c, c = ofRoot .empty ⟨"r".toList⟩ := ⟨_, rfl⟩
  obtain ⟨files, hfiles⟩ : ∃ files, files = (FileTable.ofList [(⟨"f".toList⟩, .ok "x\n".toList)]).read :=
    ⟨_, rfl⟩
  have hne : "$(include-file f)$$".toList ≠ [] := by decide
  have hlast : "$(include-file f)$$".toList.getLast? ≠ some '\n' := by decide
  have hends : EndsLine ("$(include-file f)$$".toList ++ ['\n']) :=
    .inr ⟨"$(include-file f)".toList, 1, by decide, by decide⟩
  have hrun : (c.expand "r".toList ("$(include-file f)$$".toList ++ ['\n'])).run files =
      ⟨[⟨[⟨"r".toList⟩], ⟨"f".toList⟩⟩], .ok "x\n$\n".toList⟩ := by
    rw [hc, hfiles]
    decide +kernel
  obtain ⟨hopen, hclosed⟩ := expand_final_newline hne hlast c files "r".toList
  have hrun' := (hclosed hends _ (congrArg _ hrun)).trans hrun
  rw [← hc, ← hfiles]
  exact ⟨hne, hlast, hends, hrun', (hopen _ (congrArg _ hrun')).trans hrun'⟩

end Context

end TextTemplate

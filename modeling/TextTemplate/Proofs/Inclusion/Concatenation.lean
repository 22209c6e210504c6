import TextTemplate.Files.Memory
import TextTemplate.Proofs.Inclusion.Calls
import TextTemplate.Proofs.Inclusion.Separation
import TextTemplate.Proofs.Template.Concatenation

/-!
# Expanding two texts put together

Where the first of two texts ends its line, both together are expanded as one after the other: the outputs and
the questions are put together, and what fails fails as it does alone. Only the lines of an error in the second text
are counted from the start of the first, and a directive that the first text leaves open may be closed by the second.

Main results:
* `Context.meaning_uniform`: what references and directives stand for does not depend on what follows them.
* `Context.run_evalText_append`, `Context.run_evalText_append_of_error`: the run behind a text that ends well, and
  that behind a text that fails.
* `Context.expand_concatenated`: success and failure of two texts put together.
-/

namespace TextTemplate

/-! ## What follows a reference or a directive -/

theorem Failure.inSource_inFrontOf (source whole x : Text) (f : Failure) :
    (f.inFrontOf x).inSource source (whole ++ x) = f.inSource source whole := by
  cases f with
  | here d => exact congrArg ExpandError.source (Defect.inSource_inFrontOf source whole x d)
  | elsewhere e => rfl

namespace Context

theorem lookUp_inFrontOf (c : Context) (u x name : Text) :
    c.lookUp (u ++ x) name = (c.lookUp u name).mapError (.inFrontOf x) := by
  unfold lookUp
  split <;> rfl

theorem includeFirst_inFrontOf (c : Context) (e : Expander) (u x file : Text) (ps : List Path) :
    c.includeFirst e (u ++ x) file ps = (c.includeFirst e u file ps).mapError (.inFrontOf x) := by
  induction ps with
  | nil => rfl
  | cons p ps ih =>
    by_cases hp : c.OnStack p
    · rw [includeFirst, if_pos hp, includeFirst, if_pos hp]
      rfl
    · rw [includeFirst_cons hp, includeFirst_cons hp, Inquiry.mapError_bind, Inquiry.mapError_mapError]
      congr 1
      funext o
      cases o with
      | some t => rfl
      | none => exact ih

theorem command_inFrontOf (c : Context) (e : Option Expander) (u x : Text) (words : List Text) :
    c.command e (u ++ x) words = (c.command e u words).mapError (.inFrontOf x) := by
  rcases command_cases words with rfl | ⟨cause, -, hrefuse⟩ | ⟨file, hfile, rfl⟩
  · rfl
  · rw [hrefuse, hrefuse]
    rfl
  · rw [command_include c e _ hfile, command_include c e _ hfile]
    cases e with
    | none => rfl
    | some e => exact includeFirst_inFrontOf c e u x file _

theorem meaning_uniform (c : Context) : c.meaning.Uniform where
  reference := c.lookUp_inFrontOf
  directive := c.command_inFrontOf _

/-! ## Errors of the text and errors of its includes -/

/-- The expansion of `s` hands on the error of a file that it asked for: the file fails or cannot be read. -/
def HandsOn (c : Context) (files : Files) (source s : Text) (err : ExpandError) : Prop :=
  ∃ p, ⟨c.stack, p⟩ ∈ ((c.expand source s).run files).questions ∧
    ((c.visit expandIncluded p).run files).result = .error err

variable {c : Context} {files : Files} {s : Text}

/-- The evaluation of a text is made of visits, and else fails at a place of the text. -/
theorem evalText_visits (c : Context) (files : Files) (s : Text) :
    ∃ vs, Visits c expandIncluded files Failure.elsewhere (fun f => ∃ d, f = .here d ∧ d.rest <:+ s)
      ((evalText c.meaning s).run files) vs := by
  unfold evalText
  cases hs : Template.read s with
  | ok t =>
    obtain ⟨vs, hvs⟩ := template_visits c expandIncluded files (Template.read_eq_ok_iff.1 hs)
    refine ⟨vs, hvs.mono ?_⟩
    rintro f ⟨u, cause, hu, -, rfl⟩
    exact ⟨_, rfl, hu.1⟩
  | error t =>
    have ht := (Template.read_yields s).of_error hs
    obtain ⟨vs, hvs⟩ := truncation_visits c expandIncluded files ht.toLiesIn
    refine ⟨vs, hvs.mono ?_⟩
    rintro f (⟨u, cause, hu, -, rfl⟩ | rfl)
    · exact ⟨_, rfl, hu.1⟩
    · exact ⟨_, rfl, ht.fault⟩

theorem run_expand (c : Context) (files : Files) (source s : Text) :
    (c.expand source s).run files =
      ⟨((evalText c.meaning s).run files).questions,
        ((evalText c.meaning s).run files).result.mapError (Failure.inSource source s)⟩ := by
  rw [expand_eq_eval, Inquiry.run_mapError]

theorem expand_eq_ok_iff {source o : Text} :
    ((c.expand source s).run files).result = .ok o ↔ ((evalText c.meaning s).run files).result = .ok o := by
  rw [expand_eq_eval, Inquiry.run_mapError_eq_ok_iff]

theorem expand_eq_error_iff {source : Text} {err : ExpandError} :
    ((c.expand source s).run files).result = .error err ↔
      ∃ f : Failure, ((evalText c.meaning s).run files).result = .error f ∧ f.inSource source s = err := by
  rw [expand_eq_eval, Inquiry.run_mapError_eq_error_iff]

/-- A text fails at one of its own places if no file that it asked for does. -/
theorem failure_cases (source : Text) {f : Failure} (h : ((evalText c.meaning s).run files).result = .error f) :
    (∃ d, f = .here d ∧ d.rest <:+ s ∧ ∀ err, ¬ c.HandsOn files source s err) ∨
      ∃ err, f = .elsewhere err ∧ c.HandsOn files source s err := by
  obtain ⟨vs, hvs⟩ := evalText_visits c files s
  rcases hvs.failure f h with ⟨p, hp, err, herr, rfl⟩ | ⟨d, rfl, hd⟩
  · refine .inr ⟨err, rfl, p, ?_, herr⟩
    rw [run_expand]
    exact hvs.mem_questions hp
  · refine .inl ⟨d, rfl, hd, ?_⟩
    rintro err ⟨p, hp, herr⟩
    rw [run_expand] at hp
    have hfatal := hvs.fatal p (mem_visits_of_question (upward_expandIncluded files) hvs hp) err herr
    rw [h] at hfatal
    cases hfatal

theorem not_handsOn_of_here (source : Text) {d : Defect}
    (h : ((evalText c.meaning s).run files).result = .error (.here d)) (err : ExpandError) :
    ¬ c.HandsOn files source s err := by
  rcases failure_cases source h with ⟨_, -, -, hnot⟩ | ⟨_, heq, -⟩
  · exact hnot err
  · cases heq

theorem handsOn_of_elsewhere (source : Text) {err : ExpandError}
    (h : ((evalText c.meaning s).run files).result = .error (.elsewhere err)) :
    c.HandsOn files source s err := by
  rcases failure_cases source h with ⟨_, heq, -, -⟩ | ⟨err', heq, hands⟩
  · cases heq
  · cases heq
    exact hands

/-! ## Runs put together -/

section Append

variable {t : Text} (ht : EndsLine t)

include ht

/-- Behind a run that ends well comes the run of what follows. -/
theorem run_evalText_append {o : Text} (h : ((evalText c.meaning t).run files).result = .ok o)
    (s : Text) :
    (evalText c.meaning (t ++ s)).run files =
      ⟨((evalText c.meaning t).run files).questions ++ ((evalText c.meaning s).run files).questions,
        ((evalText c.meaning s).run files).result.map (o ++ ·)⟩ := by
  obtain ⟨ts, hts⟩ := exists_derives_of_run_evalText h
  have hfirst : (((evalText c.meaning t).mapError (Failure.inFrontOf s)).run files).result = .ok o := by
    rw [Inquiry.run_mapError, h]
    rfl
  rw [evalText_append c.meaning_uniform hts ht, Inquiry.run_bind_ok hfirst, Inquiry.run_map,
    Inquiry.run_mapError]

/-- A run that fails is the run of both texts, unless a directive is open at the end of the first. -/
theorem run_evalText_append_of_error {f : Failure}
    (h : ((evalText c.meaning t).run files).result = .error f) (s : Text) :
    (evalText c.meaning (t ++ s)).run files =
        ⟨((evalText c.meaning t).run files).questions, .error (f.inFrontOf s)⟩ ∨
      ∃ error, f = .here ⟨[], .syntaxError error⟩ := by
  have hmapped : (((evalText c.meaning t).mapError (Failure.inFrontOf s)).run files) =
      ⟨((evalText c.meaning t).run files).questions, .error (f.inFrontOf s)⟩ := by
    rw [Inquiry.run_mapError, h]
    rfl
  cases hread : Template.read t with
  | ok ts =>
    left
    rw [evalText_append c.meaning_uniform (Template.read_eq_ok_iff.1 hread) ht,
      Inquiry.run_bind_error (by rw [hmapped]), hmapped]
  | error T =>
    by_cases hfault : T.fault.rest = []
    · have heval : evalText c.meaning t =
          (evalParts c.meaning T.before).bind fun _ => .fail (.here T.fault.defect) := by
        rw [evalText, hread]
        exact T.eval_eq _
      have hparts := evalParts_inFrontOf c.meaning_uniform s T.before
      rw [heval] at h ⊢
      cases hbefore : ((evalParts c.meaning T.before).run files).result with
      | ok o =>
        rw [Inquiry.run_bind_ok hbefore] at h
        cases h
        exact .inr ⟨T.fault.error, by rw [Fault.defect, hfault]⟩
      | error g =>
        -- what is complete before the fault fails, and it is evaluated first
        rw [Inquiry.run_bind_error hbefore] at h ⊢
        cases h
        have hfirst : (evalParts c.meaning (partsInFrontOf s T.before)).run files =
            ⟨((evalParts c.meaning T.before).run files).questions, .error (f.inFrontOf s)⟩ := by
          rw [hparts, Inquiry.run_mapError, hbefore]
          rfl
        left
        rw [precedes_evalText_append hread ht s files _ (by rw [hfirst]), hfirst]
    · left
      rw [evalText_append_of_fault c.meaning_uniform hread ht hfault, hmapped]

end Append

/-! ## Main theorem -/

/-- Where the text `t` ends its line, `t` and then `s` are expanded one after the other. If both expand, so do
    both together, to both outputs, and the questions are those of `t` and then those of `s`. If only `t` expands,
    the error is that of `s`: the same if a file that `s` includes made it, and else moved down by the lines of
    `t`. If `t` does not expand, both together fail in the same run, unless the error is a syntax error of `t` itself
    at its very end. -/
theorem expand_concatenated {t : Text} (ht : EndsLine t) (c : Context) (files : Files)
    (source s : Text) :
    (∀ o, ((c.expand source t).run files).result = .ok o →
      ((c.expand source (t ++ s)).run files).questions =
        ((c.expand source t).run files).questions ++ ((c.expand source s).run files).questions ∧
      (∀ o', ((c.expand source s).run files).result = .ok o' →
        ((c.expand source (t ++ s)).run files).result = .ok (o ++ o')) ∧
      ∀ err, ((c.expand source s).run files).result = .error err →
        (c.HandsOn files source s err →
          ((c.expand source (t ++ s)).run files).result = .error err) ∧
        (¬ c.HandsOn files source s err → ∃ e : SourceError, err = .source e ∧
          e.location.source = source ∧
          ((c.expand source (t ++ s)).run files).result = .error (.source (e.below t)))) ∧
    (∀ err, ((c.expand source t).run files).result = .error err →
      (c.expand source (t ++ s)).run files = (c.expand source t).run files ∨
      (¬ c.HandsOn files source t err ∧ ∃ error,
        err = .source ⟨⟨source, .after t⟩, .syntaxError error⟩)) := by
  constructor
  · intro o h
    have hfirst := run_evalText_append ht (expand_eq_ok_iff.1 h) s
    refine ⟨?_, ?_, ?_⟩
    · rw [run_expand, hfirst, run_expand, run_expand]
    · intro o' h'
      rw [expand_eq_ok_iff, hfirst, expand_eq_ok_iff.1 h']
      rfl
    · intro err herr
      obtain ⟨f, hf, rfl⟩ := expand_eq_error_iff.1 herr
      have hboth : ((c.expand source (t ++ s)).run files).result = .error (f.inSource source (t ++ s)) := by
        rw [expand_eq_error_iff, hfirst, hf]
        exact ⟨f, rfl, rfl⟩
      rcases failure_cases source hf with ⟨d, rfl, hd, hnot⟩ | ⟨err', rfl, hands⟩
      · refine ⟨fun h => absurd h (hnot _), fun _ => ⟨_, rfl, rfl, ?_⟩⟩
        rw [hboth, ← Defect.inSource_append source ht.getLast?_eq hd]
        rfl
      · exact ⟨fun _ => hboth, fun h => absurd hands h⟩
  · intro err h
    obtain ⟨f, hf, rfl⟩ := expand_eq_error_iff.1 h
    rcases run_evalText_append_of_error ht hf s with hrun | ⟨error, rfl⟩
    · left
      rw [run_expand, hrun, run_expand, hf]
      exact congrArg (Inquiry.Run.mk _) (congrArg Except.error (f.inSource_inFrontOf source t s))
    · right
      rcases failure_cases source hf with ⟨d, -, -, hnot⟩ | ⟨err', herr, -⟩
      · refine ⟨hnot _, error, ?_⟩
        have hend : Position.before t [] = .after t := by
          rw [Position.before, List.length_nil, Nat.sub_zero, List.take_length]
        rw [Failure.inSource, Defect.inSource, hend]
      · cases herr

/-- A reference behind an include and two dollar signs is refused on the second line of both texts. -/
theorem expand_concatenated_dollars :
    EndsLine "$(include-file f)$$\n".toList ∧
      (((ofRoot .empty ⟨"r".toList⟩).expand "r".toList
        ("$(include-file f)$$\n".toList ++ "a $\x7bv\x7d\n".toList)).run
          (FileTable.ofList [(⟨"f".toList⟩, .ok "x\n".toList)]).read).result =
        .error (.source ⟨⟨"r".toList, ⟨2, 3⟩⟩, .undefinedVariable "v".toList []⟩) := by
  obtain ⟨c, hc⟩ : ∃ c, c = ofRoot .empty ⟨"r".toList⟩ := ⟨_, rfl⟩
  obtain ⟨files, hfiles⟩ : ∃ files, files = (FileTable.ofList [(⟨"f".toList⟩, .ok "x\n".toList)]).read :=
    ⟨_, rfl⟩
  have hends : EndsLine "$(include-file f)$$\n".toList :=
    .inr ⟨"$(include-file f)".toList, 1, by decide, by decide⟩
  have hfirst : ((c.expand "r".toList "$(include-file f)$$\n".toList).run files).result =
      .ok "x\n$\n".toList := by
    rw [hc, hfiles]
    decide +kernel
  have hsecond : (c.expand "r".toList "a $\x7bv\x7d\n".toList).run files =
      ⟨[], .error (.source ⟨⟨"r".toList, ⟨1, 3⟩⟩, .undefinedVariable "v".toList []⟩)⟩ := by
    rw [hc, hfiles]
    decide +kernel
  have hnot : ∀ err, ¬ c.HandsOn files "r".toList "a $\x7bv\x7d\n".toList err := by
    rintro err ⟨p, hp, -⟩
    rw [hsecond] at hp
    cases hp
  obtain ⟨-, -, hfails⟩ := (expand_concatenated hends c files "r".toList "a $\x7bv\x7d\n".toList).1 _ hfirst
  obtain ⟨e, he, -, hboth⟩ := (hfails _ (congrArg _ hsecond)).2 (hnot _)
  rw [← hc, ← hfiles]
  refine ⟨hends, ?_⟩
  rw [hboth]
  cases he
  decide

end Context

end TextTemplate

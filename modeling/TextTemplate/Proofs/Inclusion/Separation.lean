import TextTemplate.Proofs.Inclusion.Visits

/-!
# Grammar and evaluation are separate

Whether a text is a template, and where it stops being one, is a matter of the text alone. In a context the
text of a template can only fail where one of its references or directives is refused or one of its includes
fails; any other text fails at a place that no context moves, unless something complete before it fails.

Main results:
* `Context.expand_eq_of_derives`, `Context.expand_eq_of_read_error`: what is evaluated is read off the text.
* `Context.grammar_apart_from_evaluation`: the two cases for every context.
-/

namespace TextTemplate.Context

/-! ## Specification -/

/-- The expansion of `s` fails at a step before `r`: a reference or directive is refused there, or a file that
    the text includes fails or cannot be read, and its failure is handed on as it is. -/
def FailsAtStep (c : Context) (files : Files) (source s r : Text) (err : ExpandError) : Prop :=
  c.Located files source s r err ∨
  ∃ p, ⟨c.stack, p⟩ ∈ ((c.expand source s).run files).questions ∧
    ((c.visit expandIncluded p).run files).result = .error err

/-! ## What is evaluated -/

theorem expand_eq_eval (c : Context) (source s : Text) :
    c.expand source s = (evalText c.meaning s).mapError (Failure.inSource source s) := by
  rw [expand_eq, expandGiven_eq]
  rfl

theorem expand_eq_of_derives {t : Template} {s : Text} (ht : t.Derives s) (c : Context)
    (source : Text) :
    c.expand source s = (t.eval c.meaning).mapError (Failure.inSource source s) := by
  rw [expand_eq_eval, evalText, ht.read]

theorem expand_eq_of_read_error {t : Truncation} {s : Text} (ht : Template.read s = .error t)
    (c : Context) (source : Text) :
    c.expand source s = (t.eval c.meaning).mapError (Failure.inSource source s) := by
  rw [expand_eq_eval, evalText, ht]

/-! ## How it fails -/

/-- In a context the text of a template fails at one of its steps only. -/
theorem failsAtStep_of_derives {t : Template} {s : Text} (ht : t.Derives s) {c : Context}
    {files : Files} {source : Text} {err : ExpandError}
    (h : ((c.expand source s).run files).result = .error err) :
    c.FailsAtStep files source s [] err := by
  obtain ⟨vs, hvs⟩ := expandGiven_visits_of_derives c expandIncluded files source ht
  rw [← expand_eq] at hvs
  rcases hvs.failure err h with ⟨p, hp, _, herr, rfl⟩ | hown
  · exact .inr ⟨p, hvs.mem_questions hp, herr⟩
  · exact .inl hown

/-- A text that is no template fails in every context. -/
theorem exists_error_of_read_error {t : Truncation} {s : Text} (ht : Template.read s = .error t)
    (c : Context) (files : Files) (source : Text) :
    ∃ err, ((c.expand source s).run files).result = .error err := by
  have heval : t.eval c.meaning =
      (evalParts c.meaning t.before).bind fun _ => .fail (.here t.fault.defect) := rfl
  rw [expand_eq_of_read_error ht, heval, Inquiry.run_mapError]
  cases hr : ((evalParts c.meaning t.before).run files).result with
  | ok o => exact ⟨_, by rw [Inquiry.run_bind_ok hr]; rfl⟩
  | error f => exact ⟨_, by rw [Inquiry.run_bind_error hr]; rfl⟩

/-- It fails at a step before its fault, or else there. -/
theorem failsAtStep_of_read_error {t : Truncation} {s : Text} (ht : Template.read s = .error t)
    {c : Context} {files : Files} {source : Text} {err : ExpandError}
    (h : ((c.expand source s).run files).result = .error err) :
    err = .source (t.fault.defect.inSource source s) ∨
      c.FailsAtStep files source s t.fault.rest err := by
  obtain ⟨vs, hvs⟩ := expandGiven_visits_of_read_error c expandIncluded files source ht
  rw [← expand_eq] at hvs
  rcases hvs.failure err h with ⟨p, hp, _, herr, rfl⟩ | hown | hfault
  · exact .inr (.inr ⟨p, hvs.mem_questions hp, herr⟩)
  · exact .inr (.inl hown)
  · exact .inl hfault

/-! ## Main theorem -/

/-- For every text exactly one of two cases holds. Either the grammar derives it, from one tree; then in every
    context the expansion evaluates that tree, and it fails at one of its steps only. Or the grammar does not
    derive it; then there are complete parts and a fault behind them, the same for all contexts, and in every
    context the expansion evaluates those parts and fails: at a step before the fault, or at the fault. -/
theorem grammar_apart_from_evaluation (source s : Text) :
    Xor
      (∃ t : Template, t.Derives s ∧ (∀ t' : Template, t'.Derives s → t' = t) ∧
        ∀ (c : Context) (files : Files),
          c.expand source s = (t.eval c.meaning).mapError (Failure.inSource source s) ∧
          ∀ err, ((c.expand source s).run files).result = .error err →
            c.FailsAtStep files source s [] err)
      ((∀ t : Template, ¬ t.Derives s) ∧ ∃ t : Truncation, t.LiesIn s ∧
        ∀ (c : Context) (files : Files),
          c.expand source s = (t.eval c.meaning).mapError (Failure.inSource source s) ∧
          ∃ err, ((c.expand source s).run files).result = .error err ∧
            (err = .source (t.fault.defect.inSource source s) ∨
              c.FailsAtStep files source s t.fault.rest err)) := by
  cases hs : Template.read s with
  | ok t =>
    have ht := Template.read_eq_ok_iff.1 hs
    refine .inl ⟨⟨t, ht, fun t' h' => h'.unique ht, fun c files => ?_⟩, fun h => h.1 t ht⟩
    exact ⟨expand_eq_of_derives ht c source, fun err h => failsAtStep_of_derives ht h⟩
  | error t =>
    have hnot := Template.not_derives_of_read hs
    refine .inr ⟨⟨hnot, t, ((Template.read_yields s).of_error hs).toLiesIn, fun c files => ?_⟩, ?_⟩
    · obtain ⟨err, herr⟩ := exists_error_of_read_error hs c files source
      exact ⟨expand_eq_of_read_error hs c source, err, herr, failsAtStep_of_read_error hs herr⟩
    · rintro ⟨t', ht', -⟩
      exact hnot t' ht'

end TextTemplate.Context

import TextTemplate.Proofs.Inclusion.Reached
import TextTemplate.Proofs.Position

/-!
# Where errors lie

An error names a source, a line and a column. They are a place in the text that the source holds, whether it is
the first text or that of a file which was included, through any number of others; and where a reference or a
directive is refused, they are the place of its dollar sign, which a diagnostic marks.

Main results:
* `Call.FailsItself.liesAt`: the error of an expansion that fails in its own text.
* `error_located`: the errors of all expansions.
-/

namespace TextTemplate

/-! ## Specification -/

/-- The causes that lie in a reference or a directive and not in the form of the text. -/
def Cause.IsRefusal : Cause → Prop
  | .undefinedVariable _ _ | .unknownCommand _ _ | .includeArity _ | .includeNotFound _
  | .recursiveInclude _ | .depthExceeded _ | .syntaxError .emptyFileName => True
  | _ => False

/-- The error lies in the source of that name, whose text is `pre` and then `post`, between the two. -/
structure SourceError.LiesAt (e : SourceError) (source pre post : Text) : Prop where
  /-- The source is named. -/
  source : e.location.source = source
  /-- The position is the one behind `pre`. -/
  position : e.location.position.IsBehind pre
  /-- A refused reference or directive is marked at its dollar sign. -/
  refusal : e.cause.IsRefusal → post.head? = some '$' ∧
    (Diagnostic.ofError e (some (pre ++ post))).span = some ⟨pre.utf8Length, 1⟩

/-! ## Errors of one text -/

theorem inSource_liesAt (source pre post : Text) (cause : Cause)
    (h : cause.IsRefusal → post.head? = some '$') :
    (Defect.inSource source (pre ++ post) ⟨post, cause⟩).LiesAt source pre post := by
  have hposition : (Defect.inSource source (pre ++ post) ⟨post, cause⟩).location.position =
      .after pre := Position.before_append pre post
  refine ⟨rfl, ?_, ?_⟩
  · rw [hposition]
    exact Position.after_isBehind pre
  · intro hcause
    obtain ⟨v, rfl⟩ : ∃ v, post = '$' :: v := by
      have hpost := h hcause
      cases post with
      | nil => cases hpost
      | cons c v => cases hpost; exact ⟨v, rfl⟩
    refine ⟨rfl, ?_⟩
    rw [Diagnostic.ofError, Option.map_some, hposition, Position.span_after]
    rfl

/-- A text that is no template is not refused for what it includes. -/
theorem not_isRefusal_of_mem {error : SyntaxError} (h : error ∈ Truncation.errors) :
    ¬ (Cause.syntaxError error).IsRefusal := by
  intro hcause
  cases error with
  | emptyFileName => simp [Truncation.errors, Quoted.errors] at h
  | _ => exact hcause

theorem Call.FailsItself.liesAt {files : Files} {a : Call} {e : SourceError}
    (h : a.FailsItself files (.source e)) :
    ∃ pre post, a.text = pre ++ post ∧ e.LiesAt a.source pre post := by
  rcases h with ⟨u, cause, ⟨⟨pre, hpre⟩, v, rfl, -⟩, -, herr⟩ | ⟨t, ht, herr⟩
  · cases herr
    refine ⟨pre, '$' :: v, hpre.symm, ?_⟩
    rw [← hpre]
    exact inSource_liesAt a.source pre ('$' :: v) cause fun _ => rfl
  · cases herr
    obtain ⟨pre, hpre⟩ := ht.fault
    refine ⟨pre, t.fault.rest, hpre.symm, ?_⟩
    rw [← hpre]
    exact inSource_liesAt a.source pre t.fault.rest _ fun hcause =>
      absurd hcause (not_isRefusal_of_mem ht.error)

/-! ## Main theorem -/

/-- What an expansion that is reached fails with is what every expansion that leads to it fails with; and if it
    is an error in a source, then one that is reached fails with it whose text, which is the first text or
    that of a file that was read, it lies in. -/
theorem error_located (files : Files) (a : Call) :
    (∀ b, Relation.ReflTransGen (Calls files) a b → ∀ err, (b.run files).result = .error err →
      (a.run files).result = .error err) ∧
    ∀ e, (a.run files).result = .error (.source e) →
      ∃ b, Relation.ReflTransGen (Calls files) a b ∧ (b.run files).result = .error (.source e) ∧
        (b.source = a.source ∧ b.text = a.text ∨
          ∃ q ∈ (a.run files).questions, b.source = q.path.text ∧ files q.path = .ok b.text) ∧
        ∃ pre post, b.text = pre ++ post ∧ e.LiesAt b.source pre post := by
  constructor
  · intro b hb err herr
    exact error_of_reached hb herr
  · intro e he
    rcases exists_reached_of_error files a he with ⟨b, hb, herr, hfails⟩ | ⟨p, g, hread⟩
    · refine ⟨b, hb, herr, ?_, hfails.liesAt⟩
      rcases given_of_reached hb with rfl | hgiven
      · exact .inl ⟨rfl, rfl⟩
      · exact .inr hgiven
    · cases hread

end TextTemplate

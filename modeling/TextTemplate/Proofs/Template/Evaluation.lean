import TextTemplate.Proofs.Inquiry
import TextTemplate.Proofs.Template.Acceptance
import TextTemplate.Template.Evaluation

/-!
# Evaluation keeps what its steps have

Evaluating a template puts inquiries one after the other, so a relation between inquiries that every
reference and every directive has, and that going on from a result keeps, relates the evaluations of the whole
text. The induction over trees is done here once; a property of single inquiries is the case of a relation
that looks at one side only.

Main results:
* `evalParts_cons`, `Template.eval_cons`: parts and lines one after the other, as inquiries.
* `evalParts_related`, `Template.eval_related`: parts and templates.
* `evalText_related`: whole texts, with the dollar signs of the text as the places where steps start.
-/

namespace TextTemplate

/-! ## Parts, lines and words one after the other -/

theorem evalParts_cons (m : Semantics) (p : Part) (ps : List Part) :
    evalParts m (p :: ps) =
      (p.eval m).bind fun t => (evalParts m ps).bind fun u => .pure (t ++ u) := by
  rw [evalParts]
  rfl

theorem Template.eval_cons (m : Semantics) (l : Line) (ls : Template) :
    Template.eval m (l :: ls) =
      (l.eval m).bind fun t => (Template.eval m ls).bind fun u => .pure (t ++ u) := rfl

theorem Line.eval_content (m : Semantics) (indent : Text) (ps : List Part) :
    (Line.content indent ps).eval m =
      (evalParts m ps).bind fun t => .pure (indent ++ t ++ ['\n']) := rfl

theorem Truncation.eval_eq (m : Semantics) (t : Truncation) :
    t.eval m = (evalParts m t.before).bind fun _ => .fail (.here t.fault.defect) := rfl

/-! ## Related steps -/

/-- What references and directives stand for is related, at the places of `P`. -/
structure Semantics.Related (R : ∀ {α : Type}, Inquiry Failure α → Inquiry Failure α → Prop)
    (P : Text → Prop) (m m' : Semantics) : Prop where
  /-- References are related. -/
  reference : ∀ u, P u → ∀ name, R (m.reference u name) (m'.reference u name)
  /-- Directives are related. -/
  directive : ∀ u, P u → ∀ words, R (m.directive u words) (m'.directive u words)

section Related

variable {R : ∀ {α : Type}, Inquiry Failure α → Inquiry Failure α → Prop} {P : Text → Prop}
  {m m' : Semantics}

/-! ## Parts -/

mutual

theorem Expansion.eval_related (hR : Inquiry.Compositional R) (hm : m.Related R P m')
    (e : Expansion) (h : ∀ u ∈ e.starts, P u) : R (e.eval m) (e.eval m') := by
  cases e with
  | dollar => exact hR.pure _
  | join => exact hR.pure _
  | comment => exact hR.pure _
  | reference start name =>
    simp only [Expansion.starts, List.forall_mem_cons] at h
    exact hR.bind (evalParts_related hR hm name h.2) fun t => hm.reference start h.1 t
  | directive start words =>
    simp only [Expansion.starts, List.forall_mem_cons] at h
    exact hR.bind (evalWords_related hR hm words h.2) fun ts => hm.directive start h.1 ts

theorem Part.eval_related (hR : Inquiry.Compositional R) (hm : m.Related R P m')
    (p : Part) (h : ∀ u ∈ p.starts, P u) : R (p.eval m) (p.eval m') := by
  cases p with
  | text t => exact hR.pure _
  | expansion e => exact Expansion.eval_related hR hm e h

theorem evalParts_related (hR : Inquiry.Compositional R) (hm : m.Related R P m')
    (ps : List Part) (h : ∀ u ∈ startsOfParts ps, P u) : R (evalParts m ps) (evalParts m' ps) := by
  cases ps with
  | nil => exact hR.pure _
  | cons p ps =>
    simp only [startsOfParts, List.forall_mem_append] at h
    exact hR.bind (Part.eval_related hR hm p h.1) fun t =>
      hR.bind (evalParts_related hR hm ps h.2) fun u => hR.pure _

theorem evalWords_related (hR : Inquiry.Compositional R) (hm : m.Related R P m')
    (ws : List (List Part)) (h : ∀ u ∈ startsOfWords ws, P u) :
    R (evalWords m ws) (evalWords m' ws) := by
  cases ws with
  | nil => exact hR.pure _
  | cons w ws =>
    simp only [startsOfWords, List.forall_mem_append] at h
    exact hR.bind (evalParts_related hR hm w h.1) fun t =>
      hR.bind (evalWords_related hR hm ws h.2) fun us => hR.pure _

end

/-! ## Templates -/

theorem Line.eval_related (hR : Inquiry.Compositional R) (hm : m.Related R P m') (l : Line)
    (h : ∀ u ∈ startsOfParts l.parts, P u) : R (l.eval m) (l.eval m') := by
  cases l with
  | elided => exact hR.pure _
  | content indent ps => exact hR.bind (evalParts_related hR hm ps h) fun t => hR.pure _

theorem Template.eval_related (hR : Inquiry.Compositional R) (hm : m.Related R P m')
    {t : Template} {s : Text} (ht : t.Derives s)
    (h : ∀ u, DollarBefore s [] u → P u) : R (t.eval m) (t.eval m') := by
  induction ht with
  | nil => exact hR.pure _
  | cons hl _ _ ih =>
    obtain ⟨hr, hs⟩ := hl.starts
    refine hR.bind (Line.eval_related hR hm _ ?_) fun t => hR.bind (ih ?_) fun u => hR.pure _
    · intro u hu; exact h u ((hs u hu).mono List.suffix_rfl List.nil_suffix)
    · intro u hu; exact h u (hu.mono hr List.suffix_rfl)

/-- The evaluations of a text are related, if the failures at its fault are in case it is no template. -/
theorem evalText_related (hR : Inquiry.Compositional R) (hm : m.Related R P m') (s : Text)
    (h : ∀ u, DollarBefore s [] u → P u)
    (hfault : ∀ t : Truncation, t.LiesIn s →
      R (.fail (.here t.fault.defect) : Inquiry Failure Text) (.fail (.here t.fault.defect))) :
    R (evalText m s) (evalText m' s) := by
  unfold evalText
  split
  · rename_i t ht
    exact Template.eval_related hR hm (Template.read_eq_ok_iff.1 ht) h
  · rename_i t ht
    have hl := (Template.read_yields s).of_error ht
    refine hR.bind (evalParts_related hR hm t.before ?_) fun _ => hfault t hl.toLiesIn
    intro u hu
    exact h u ((hl.before u hu).mono List.suffix_rfl List.nil_suffix)

end Related

end TextTemplate

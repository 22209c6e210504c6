import TextTemplate.Proofs.Position
import TextTemplate.Proofs.Template.Evaluation

/-!
# Templates in front of more text

References and directives carry what is left of the text where they start. With `x` put behind the text each
carries `x` as well. What they stand for does not depend on it, so a template in front of `x` is evaluated as it
is alone, and only the place in a failure is seen with `x` behind it.

Main results:
* `evalParts_inFrontOf`, `Template.eval_inFrontOf`: the evaluation in front of more text.
* `evalParts_append`, `Template.eval_append`: the evaluation of parts and of templates put together.
-/

namespace TextTemplate

/-! ## Trees -/

mutual

/-- An expansion seen with `x` behind the text. -/
def Expansion.inFrontOf (x : Text) : Expansion → Expansion
  | .dollar => .dollar
  | .join => .join
  | .comment => .comment
  | .reference start name => .reference (start ++ x) (partsInFrontOf x name)
  | .directive start words => .directive (start ++ x) (wordsInFrontOf x words)

/-- A part seen with `x` behind the text. -/
def Part.inFrontOf (x : Text) : Part → Part
  | .text t => .text t
  | .expansion e => .expansion (e.inFrontOf x)

/-- Parts seen with `x` behind the text. -/
def partsInFrontOf (x : Text) : List Part → List Part
  | [] => []
  | p :: ps => p.inFrontOf x :: partsInFrontOf x ps

/-- Words seen with `x` behind the text. -/
def wordsInFrontOf (x : Text) : List (List Part) → List (List Part)
  | [] => []
  | w :: ws => partsInFrontOf x w :: wordsInFrontOf x ws

end

theorem partsInFrontOf_append (x : Text) (ps qs : List Part) :
    partsInFrontOf x (ps ++ qs) = partsInFrontOf x ps ++ partsInFrontOf x qs := by
  induction ps with
  | nil => simp [partsInFrontOf]
  | cons p ps ih => simp [partsInFrontOf, ih]

/-- A line seen with `x` behind the text. -/
def Line.inFrontOf (x : Text) : Line → Line
  | .elided => .elided
  | .content indent parts => .content indent (partsInFrontOf x parts)

theorem Line.parts_inFrontOf (x : Text) (l : Line) :
    (l.inFrontOf x).parts = partsInFrontOf x l.parts := by
  cases l <;> simp [Line.inFrontOf, Line.parts, partsInFrontOf]

/-- A template seen with `x` behind the text. -/
def Template.inFrontOf (x : Text) (t : Template) : Template := t.map (Line.inFrontOf x)

theorem Template.inFrontOf_cons (x : Text) (l : Line) (ls : Template) :
    Template.inFrontOf x (l :: ls) = l.inFrontOf x :: Template.inFrontOf x ls := rfl

/-- A truncation seen with `x` behind the text. -/
def Truncation.inFrontOf (x : Text) (t : Truncation) : Truncation :=
  ⟨partsInFrontOf x t.before, t.fault.inFrontOf x⟩

theorem Truncation.after_inFrontOf (x : Text) (t : Truncation) (ps : List Part) :
    (t.after ps).inFrontOf x = (t.inFrontOf x).after (partsInFrontOf x ps) := by
  simp [Truncation.inFrontOf, Truncation.after, partsInFrontOf_append]

/-! ## Evaluation in front of more text -/

/-- A failure seen with `x` behind the text. -/
def Failure.inFrontOf (x : Text) : Failure → Failure
  | .here d => .here (d.inFrontOf x)
  | .elsewhere e => .elsewhere e

/-- What references and directives stand for does not depend on what follows them. -/
structure Semantics.Uniform (m : Semantics) : Prop where
  /-- References do not. -/
  reference : ∀ u x name, m.reference (u ++ x) name = (m.reference u name).mapError (.inFrontOf x)
  /-- Directives do not. -/
  directive : ∀ u x words, m.directive (u ++ x) words = (m.directive u words).mapError (.inFrontOf x)

section Uniform

variable {m : Semantics}

mutual

theorem Expansion.eval_inFrontOf (hm : m.Uniform) (x : Text) (e : Expansion) :
    (e.inFrontOf x).eval m = (e.eval m).mapError (.inFrontOf x) := by
  cases e with
  | dollar => rfl
  | join => rfl
  | comment => rfl
  | reference start name =>
    rw [Expansion.inFrontOf, Expansion.eval, Expansion.eval, Inquiry.mapError_do, evalParts_inFrontOf hm x name]
    simp only [hm.reference]
  | directive start words =>
    rw [Expansion.inFrontOf, Expansion.eval, Expansion.eval, Inquiry.mapError_do, evalWords_inFrontOf hm x words]
    simp only [hm.directive]

theorem Part.eval_inFrontOf (hm : m.Uniform) (x : Text) (p : Part) :
    (p.inFrontOf x).eval m = (p.eval m).mapError (.inFrontOf x) := by
  cases p with
  | text t => rfl
  | expansion e => exact Expansion.eval_inFrontOf hm x e

theorem evalParts_inFrontOf (hm : m.Uniform) (x : Text) (ps : List Part) :
    evalParts m (partsInFrontOf x ps) = (evalParts m ps).mapError (.inFrontOf x) := by
  cases ps with
  | nil => rfl
  | cons p ps =>
    rw [partsInFrontOf, evalParts, evalParts, Inquiry.mapError_do, Part.eval_inFrontOf hm x p,
      evalParts_inFrontOf hm x ps]
    simp only [Inquiry.mapError_do]
    rfl

theorem evalWords_inFrontOf (hm : m.Uniform) (x : Text) (ws : List (List Part)) :
    evalWords m (wordsInFrontOf x ws) = (evalWords m ws).mapError (.inFrontOf x) := by
  cases ws with
  | nil => rfl
  | cons w ws =>
    rw [wordsInFrontOf, evalWords, evalWords, Inquiry.mapError_do, evalParts_inFrontOf hm x w,
      evalWords_inFrontOf hm x ws]
    simp only [Inquiry.mapError_do]
    rfl

end

theorem Line.eval_inFrontOf (hm : m.Uniform) (x : Text) (l : Line) :
    (l.inFrontOf x).eval m = (l.eval m).mapError (.inFrontOf x) := by
  cases l with
  | elided => rfl
  | content indent parts =>
    rw [Line.inFrontOf, Line.eval, Line.eval, Inquiry.mapError_do, evalParts_inFrontOf hm x parts]
    rfl

theorem Template.eval_inFrontOf (hm : m.Uniform) (x : Text) (t : Template) :
    (t.inFrontOf x).eval m = (t.eval m).mapError (.inFrontOf x) := by
  induction t with
  | nil => rfl
  | cons l ls ih =>
    rw [Template.inFrontOf_cons, Template.eval, Template.eval, Inquiry.mapError_do, Line.eval_inFrontOf hm x l, ih]
    simp only [Inquiry.mapError_do]
    rfl

theorem Truncation.eval_inFrontOf (hm : m.Uniform) (x : Text) (t : Truncation) :
    (t.inFrontOf x).eval m = (t.eval m).mapError (.inFrontOf x) := by
  rw [Truncation.eval_eq m t, Inquiry.mapError_bind, ← evalParts_inFrontOf hm]
  rfl

end Uniform

/-! ## Evaluation one after the other -/

theorem evalParts_append (m : Semantics) (ps qs : List Part) :
    evalParts m (ps ++ qs) =
      (evalParts m ps).bind fun t => (evalParts m qs).bind fun u => .pure (t ++ u) := by
  induction ps with
  | nil =>
    show evalParts m qs = (evalParts m qs).bind .pure
    exact (Inquiry.bind_pure _).symm
  | cons p ps ih =>
    rw [List.cons_append, evalParts_cons, evalParts_cons, ih]
    simp only [Inquiry.bind_assoc, Inquiry.bind, List.append_assoc]

theorem Template.eval_append (m : Semantics) (t t' : Template) :
    Template.eval m (t ++ t') =
      (Template.eval m t).bind fun u => (Template.eval m t').bind fun v => .pure (u ++ v) := by
  induction t with
  | nil =>
    show Template.eval m t' = (Template.eval m t').bind .pure
    exact (Inquiry.bind_pure _).symm
  | cons l ls ih =>
    rw [List.cons_append, Template.eval_cons, Template.eval_cons, ih]
    simp only [Inquiry.bind_assoc, Inquiry.bind, List.append_assoc]

end TextTemplate

import TextTemplate.Error

/-!
# Inquiries

An inquiry is a computation that may ask for the contents of files, one after the other, and goes on from
what it is told. It never sees more of a file system than the answers to its questions. A question names the
file and says on behalf of which files it is asked. `Inquiry.run` answers from given files and records the
questions.

Results:
* `run_pure`, `run_fail`, `run_ask`, `run_bind`, `run_mapError`: a run step by step.
* `run_attempt`: attempting asks the same questions and always ends well.
-/

namespace TextTemplate

/-- What files hold: the text at a path, or why it cannot be read. -/
abbrev Files := Path → Except ReadFailure Text

/-- A question for a file. -/
structure Question where
  /-- The files that are being expanded when it is asked, outermost first. -/
  stack : List Path
  /-- The path of the file. -/
  path : Path
  deriving DecidableEq, Repr

/-- A computation that asks for files and ends in an `α` or an `ε`. -/
inductive Inquiry (ε α : Type) where
  /-- It ends well. -/
  | pure (a : α)
  /-- It fails. -/
  | fail (e : ε)
  /-- It asks a question and goes on from the answer. -/
  | ask (question : Question) (next : Except ReadFailure Text → Inquiry ε α)

namespace Inquiry

variable {ε δ α β : Type}

/-- Go on from the result, if there is one. -/
def bind : Inquiry ε α → (α → Inquiry ε β) → Inquiry ε β
  | .pure a, f => f a
  | .fail e, _ => .fail e
  | .ask question next, f => .ask question fun answer => (next answer).bind f

instance : Monad (Inquiry ε) where
  pure := .pure
  bind := .bind

/-- Change what a failure carries. -/
def mapError (f : ε → δ) : Inquiry ε α → Inquiry δ α
  | .pure a => .pure a
  | .fail e => .fail (f e)
  | .ask question next => .ask question fun answer => (next answer).mapError f

/-- Go on with the end of an inquiry, whether it is good or not. -/
def attempt : Inquiry ε α → Inquiry δ (Except ε α)
  | .pure a => .pure (.ok a)
  | .fail e => .pure (.error e)
  | .ask question next => .ask question fun answer => (next answer).attempt

/-- What becomes of an inquiry: its questions, in order, and its end. -/
structure Run (ε α : Type) where
  /-- The questions it asked, whether or not the files could be read. -/
  questions : List Question
  /-- How it ended. -/
  result : Except ε α

/-- The paths that an inquiry asked for, in order. -/
def Run.reads (r : Run ε α) : List Path := r.questions.map Question.path

/-- Answer an inquiry from files. -/
def run (files : Files) : Inquiry ε α → Run ε α
  | .pure a => ⟨[], .ok a⟩
  | .fail e => ⟨[], .error e⟩
  | .ask question next =>
    let r := (next (files question.path)).run files
    ⟨question :: r.questions, r.result⟩

/-! ## Runs step by step -/

@[simp] theorem run_pure (files : Files) (a : α) :
    (Inquiry.pure a : Inquiry ε α).run files = ⟨[], .ok a⟩ := rfl

@[simp] theorem run_fail (files : Files) (e : ε) :
    (Inquiry.fail e : Inquiry ε α).run files = ⟨[], .error e⟩ := rfl

theorem run_ask (files : Files) (question : Question)
    (next : Except ReadFailure Text → Inquiry ε α) :
    (Inquiry.ask question next).run files =
      ⟨question :: ((next (files question.path)).run files).questions,
        ((next (files question.path)).run files).result⟩ := rfl

/-- Going on asks the questions of both, and ends as the second does if the first ends well. -/
theorem run_bind (files : Files) (x : Inquiry ε α) (f : α → Inquiry ε β) :
    (x.bind f).run files =
      match (x.run files).result with
      | .ok a =>
        ⟨(x.run files).questions ++ ((f a).run files).questions, ((f a).run files).result⟩
      | .error e => ⟨(x.run files).questions, .error e⟩ := by
  induction x with
  | pure a => simp [bind]
  | fail e => simp [bind]
  | ask question next ih =>
    simp only [bind, run_ask, ih]
    split <;> simp

theorem run_mapError (files : Files) (x : Inquiry ε α) (f : ε → δ) :
    (x.mapError f).run files = ⟨(x.run files).questions, (x.run files).result.mapError f⟩ := by
  induction x with
  | pure a => rfl
  | fail e => rfl
  | ask question next ih => simp [mapError, run_ask, ih]

theorem run_attempt (files : Files) (x : Inquiry ε α) :
    (x.attempt : Inquiry δ (Except ε α)).run files =
      ⟨(x.run files).questions, .ok (x.run files).result⟩ := by
  induction x with
  | pure a => rfl
  | fail e => rfl
  | ask question next ih => simp [attempt, run_ask, ih]

end Inquiry

end TextTemplate

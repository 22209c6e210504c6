import Mathlib.Control.Monad.Basic
import TextTemplate.Inquiry

/-!
# Laws of inquiries

Inquiries go on from one another as programs do, and a run of what goes on is the run of the first and then of
the second.

Main results:
* `Inquiry.bind_assoc`, `Inquiry.bind_pure`, `Inquiry.mapError_bind`: the laws.
* `Inquiry.run_bind_ok`, `Inquiry.run_bind_error`: a run that goes on, and one that does not.
* `Inquiry.run_congr`: a run depends on the answers to its own questions only.
* `Inquiry.run_mapError_eq_ok_iff`, `Inquiry.run_mapError_eq_error_iff`: the ends of a run with its errors mapped.
* `Inquiry.bind_precedes`, `Inquiry.Precedes.bind`: inquiries that fail as another does before them.
-/

namespace TextTemplate.Inquiry

variable {ε δ α β γ : Type}

deriving instance DecidableEq for Run

theorem bind_pure (x : Inquiry ε α) : x.bind .pure = x := by
  induction x with
  | pure a => rfl
  | fail e => rfl
  | ask question next ih => rw [bind]; congr 1; funext answer; exact ih answer

theorem bind_assoc (x : Inquiry ε α) (f : α → Inquiry ε β) (g : β → Inquiry ε γ) :
    (x.bind f).bind g = x.bind fun a => (f a).bind g := by
  induction x with
  | pure a => rfl
  | fail e => rfl
  | ask question next ih => rw [bind, bind, bind]; congr 1; funext answer; exact ih answer

theorem mapError_bind (g : ε → δ) (x : Inquiry ε α) (f : α → Inquiry ε β) :
    (x.bind f).mapError g = (x.mapError g).bind fun a => (f a).mapError g := by
  induction x with
  | pure a => rfl
  | fail e => rfl
  | ask question next ih =>
    rw [bind, mapError, mapError, bind]; congr 1; funext answer; exact ih answer

theorem mapError_do (g : ε → δ) (x : Inquiry ε α) (f : α → Inquiry ε β) :
    (x >>= f).mapError g = x.mapError g >>= fun a => (f a).mapError g :=
  mapError_bind g x f

theorem mapError_mapError (x : Inquiry ε α) (f : ε → δ) {η : Type} (g : δ → η) :
    (x.mapError f).mapError g = x.mapError fun e => g (f e) := by
  induction x with
  | pure a => rfl
  | fail e => rfl
  | ask question next ih => rw [mapError, mapError, mapError]; congr 1; funext answer; exact ih answer

theorem run_bind_ok {files : Files} {x : Inquiry ε α} {a : α} (h : (x.run files).result = .ok a)
    (f : α → Inquiry ε β) :
    (x.bind f).run files =
      ⟨(x.run files).questions ++ ((f a).run files).questions, ((f a).run files).result⟩ := by
  rw [run_bind, h]

theorem run_bind_error {files : Files} {x : Inquiry ε α} {e : ε}
    (h : (x.run files).result = .error e) (f : α → Inquiry ε β) :
    (x.bind f).run files = ⟨(x.run files).questions, .error e⟩ := by
  rw [run_bind, h]

/-- What goes on to a result has a first result to go on from. -/
theorem exists_of_run_bind_ok {files : Files} {x : Inquiry ε α} {f : α → Inquiry ε β} {b : β}
    (h : ((x.bind f).run files).result = .ok b) :
    ∃ a, (x.run files).result = .ok a ∧ ((f a).run files).result = .ok b := by
  cases hx : (x.run files).result with
  | ok a =>
    rw [run_bind_ok hx] at h
    exact ⟨a, rfl, h⟩
  | error e =>
    rw [run_bind_error hx] at h
    cases h

theorem run_mapError_eq_ok_iff {files : Files} {x : Inquiry ε α} {g : ε → δ} {a : α} :
    ((x.mapError g).run files).result = .ok a ↔ (x.run files).result = .ok a := by
  rw [run_mapError]
  cases (x.run files).result with
  | ok a' => constructor <;> intro h <;> cases h <;> rfl
  | error e => constructor <;> intro h <;> cases h

theorem run_mapError_eq_error_iff {files : Files} {x : Inquiry ε α} {g : ε → δ} {d : δ} :
    ((x.mapError g).run files).result = .error d ↔ ∃ e, (x.run files).result = .error e ∧ g e = d := by
  rw [run_mapError]
  constructor
  · intro h
    cases hx : (x.run files).result with
    | ok a => rw [hx] at h; cases h
    | error e => rw [hx] at h; exact ⟨e, rfl, Except.error.inj h⟩
  · rintro ⟨e, he, rfl⟩
    rw [he]
    rfl

theorem run_attempt_bind (files : Files) (x : Inquiry ε α) (f : Except ε α → Inquiry δ β) :
    ((x.attempt.bind f).run files).result = ((f (x.run files).result).run files).result := by
  rw [run_bind, run_attempt]

theorem run_map (files : Files) (x : Inquiry ε α) (f : α → β) :
    (x.bind fun a => .pure (f a)).run files =
      ⟨(x.run files).questions, (x.run files).result.map f⟩ := by
  rw [run_bind]
  cases (x.run files).result with
  | ok a => simp [Except.map]
  | error e => rfl

/-- Files that answer what was asked in the same way lead to the same run. -/
theorem run_congr {files files' : Files} {x : Inquiry ε α}
    (h : ∀ p ∈ (x.run files).reads, files' p = files p) : x.run files' = x.run files := by
  induction x with
  | pure a => rfl
  | fail e => rfl
  | ask question next ih =>
    rw [run_ask, Run.reads, List.map_cons, List.forall_mem_cons] at h
    rw [run_ask, run_ask, h.1, ih (files question.path) h.2]

/-- A relation between inquiries that fail alike: equal results have it, and going on keeps it. -/
structure Compositional (R : ∀ {α : Type}, Inquiry ε α → Inquiry ε α → Prop) : Prop where
  /-- Equal results are related. -/
  pure {α : Type} (a : α) : R (.pure a) (.pure a)
  /-- Going on from related inquiries to related ones is related. -/
  bind {α β : Type} {x y : Inquiry ε α} {f g : α → Inquiry ε β} :
    R x y → (∀ a, R (f a) (g a)) → R (x.bind f) (y.bind g)

/-! ## Failing first -/

/-- Where the first inquiry fails, the second asks the same questions and fails in the same way. -/
def Precedes (x : Inquiry ε α) (y : Inquiry ε β) : Prop :=
  ∀ files e, (x.run files).result = .error e → y.run files = ⟨(x.run files).questions, .error e⟩

theorem precedes_self (x : Inquiry ε α) : x.Precedes x := by
  intro files e h
  rw [← h]

theorem pure_precedes (a : α) (y : Inquiry ε β) : (Inquiry.pure a : Inquiry ε α).Precedes y := by
  intro files e h
  cases h

theorem Precedes.bind {x : Inquiry ε α} {y : Inquiry ε β} (h : x.Precedes y) (f : β → Inquiry ε γ) :
    x.Precedes (y.bind f) := by
  intro files e he
  have hy := h files e he
  rw [run_bind_error (by rw [hy]), hy]

/-- What is done with a result does not make an inquiry fail. -/
theorem Precedes.map {x : Inquiry ε α} {y : Inquiry ε β} (h : x.Precedes y) (f : α → γ) :
    (x.bind fun a => .pure (f a)).Precedes y := by
  intro files e he
  cases hx : (x.run files).result with
  | ok a => rw [run_bind_ok hx] at he; cases he
  | error e' =>
    rw [run_bind_error hx] at he ⊢
    cases he
    exact h files e hx

/-- Behind the same first step, what comes next may fail first. -/
theorem bind_precedes (x : Inquiry ε α) {f : α → Inquiry ε β} {g : α → Inquiry ε γ}
    (h : ∀ a, (f a).Precedes (g a)) : (x.bind f).Precedes (x.bind g) := by
  intro files e he
  cases hx : (x.run files).result with
  | ok a =>
    rw [run_bind_ok hx] at he ⊢
    rw [run_bind_ok hx, h a files e he]
  | error e' =>
    rw [run_bind_error hx] at he ⊢
    rw [run_bind_error hx]
    cases he
    rfl

end TextTemplate.Inquiry

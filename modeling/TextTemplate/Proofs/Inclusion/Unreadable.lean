import TextTemplate.Proofs.Inclusion.Reached
import TextTemplate.Proofs.Inclusion.Separation

/-!
# Files that cannot be read

A file that is there and cannot be read ends the whole expansion, wherever it was asked for: in a name, in a directive,
in a file that another includes. Nothing is asked for behind it, and the error names it. No other expansion fails
because of a file that cannot be read.

Main results:
* `Inquiry.heeds_compositional`: of inquiries that heed what they are told, so does one behind the other.
* `Context.expand_heeds`: expansions do.
* `Context.unreadable_last`: where an expansion fails because a file cannot be read, and where it was asked for.
-/

namespace TextTemplate

/-! ## Specification -/

/-- The files tell what there is at a path: a text, or no file at all. -/
def Files.Tell (files : Files) (p : Path) : Prop :=
  (∃ t, files p = .ok t) ∨ ∃ g, files p = .error g ∧ g.kind = .notFound

/-- There is a file at a path, which cannot be read because of `g`. -/
def Files.Withhold (files : Files) (p : Path) (g : ReadFailure) : Prop :=
  files p = .error g ∧ g.kind ≠ .notFound

/-- The file that cannot be read, and why, if an error is about one. -/
def ExpandError.unreadable? : ExpandError → Option (Path × ReadFailure)
  | .source _ => none
  | .unreadable p g => some (p, g)

/-- The file that cannot be read, and why, if a failure is about one. -/
def Failure.unreadable? : Failure → Option (Path × ReadFailure)
  | .here _ => none
  | .elsewhere error => error.unreadable?

theorem Files.Tell.not_withhold {files : Files} {p : Path} (h : files.Tell p) {g : ReadFailure} :
    ¬ files.Withhold p g := by
  rintro ⟨hp, hg⟩
  rcases h with ⟨t, ht⟩ | ⟨g', hg', hkind⟩
  · rw [ht] at hp
    cases hp
  · rw [hg'] at hp
    cases hp
    exact hg hkind

namespace Inquiry

variable {ε δ α β : Type} {files : Files} {unreadable? : ε → Option (Path × ReadFailure)}

/-- The run heeds what the files say. Either it was told of every file what there is, and its failure, if any, is about
    none of them; or the last file it asked for was withheld, the first of them, and its failure is about that one. -/
inductive Heeds (files : Files) (unreadable? : ε → Option (Path × ReadFailure)) (r : Run ε α) : Prop
  | told : (∀ q ∈ r.questions, files.Tell q.path) → (∀ e, r.result = .error e → unreadable? e = none) →
      Heeds files unreadable? r
  | withheld {before : List Question} {q : Question} {g : ReadFailure} {e : ε} :
      r.questions = before ++ [q] → (∀ q' ∈ before, files.Tell q'.path) → files.Withhold q.path g →
      r.result = .error e → unreadable? e = some (q.path, g) → Heeds files unreadable? r

/-! ## Inquiries that heed what they are told -/

theorem heeds_pure (a : α) : Heeds files unreadable? ((Inquiry.pure a : Inquiry ε α).run files) :=
  .told (by simp) (by simp)

theorem heeds_fail {e : ε} (he : unreadable? e = none) :
    Heeds files unreadable? ((Inquiry.fail e : Inquiry ε α).run files) := by
  refine .told (by simp) fun e' he' => ?_
  cases he'
  exact he

/-- Where the first inquiry was told of every file, the second goes on; where one was withheld, nothing follows. -/
theorem Heeds.bind {x : Inquiry ε α} {f : α → Inquiry ε β} (hx : Heeds files unreadable? (x.run files))
    (hf : ∀ a, Heeds files unreadable? ((f a).run files)) :
    Heeds files unreadable? ((x.bind f).run files) := by
  cases hr : (x.run files).result with
  | error e =>
    rw [run_bind_error hr]
    cases hx with
    | told htold hfails =>
      refine .told htold fun e' he' => ?_
      cases he'
      exact hfails e hr
    | withheld hlast htold hp he hcarries =>
      rw [hr] at he
      cases he
      exact .withheld hlast htold hp rfl hcarries
  | ok a =>
    rw [run_bind_ok hr]
    cases hx with
    | withheld hlast htold hp he hcarries =>
      rw [hr] at he
      cases he
    | told htold hfails =>
      cases hf a with
      | told htold' hfails' =>
        exact .told (List.forall_mem_append.2 ⟨htold, htold'⟩) hfails'
      | withheld hlast htold' hp he hcarries =>
        refine .withheld ?_ (List.forall_mem_append.2 ⟨htold, htold'⟩) hp he hcarries
        rw [hlast, List.append_assoc]

theorem heeds_compositional (files : Files) (unreadable? : ε → Option (Path × ReadFailure)) :
    Compositional fun x _ => Heeds files unreadable? (x.run files) where
  pure a := heeds_pure a
  bind hx hf := hx.bind hf

theorem Heeds.mapError {unreadable?' : δ → Option (Path × ReadFailure)} {x : Inquiry ε α}
    (h : Heeds files unreadable? (x.run files)) {k : ε → δ}
    (hk : ∀ e, unreadable?' (k e) = unreadable? e) :
    Heeds files unreadable?' ((x.mapError k).run files) := by
  rw [run_mapError]
  cases h with
  | told htold hfails =>
    refine .told htold fun e' he' => ?_
    cases hr : (x.run files).result with
    | ok a => rw [hr] at he'; cases he'
    | error e =>
      rw [hr] at he'
      cases he'
      exact (hk e).trans (hfails e hr)
  | withheld hlast htold hp he hcarries =>
    exact .withheld hlast htold hp (congrArg (Except.mapError k) he) ((hk _).trans hcarries)

/-! ## What a run shows -/

/-- A file that is withheld is the last that was asked for. -/
theorem Heeds.of_withhold {r : Run ε α} (h : Heeds files unreadable? r) {q : Question}
    (hq : q ∈ r.questions) {g : ReadFailure} (hp : files.Withhold q.path g) :
    (∃ e, r.result = .error e ∧ unreadable? e = some (q.path, g)) ∧
      ∃ before, r.questions = before ++ [q] ∧ ∀ q' ∈ before, files.Tell q'.path := by
  cases h with
  | told htold _ => exact absurd hp (htold q hq).not_withhold
  | withheld hlast htold hp' he hcarries =>
    rename_i before q' g' e
    obtain rfl : q = q' := by
      rw [hlast, List.mem_append, List.mem_singleton] at hq
      exact hq.resolve_left fun hbefore => (htold q hbefore).not_withhold hp
    obtain rfl : g = g' := Except.error.inj (hp.1.symm.trans hp'.1)
    exact ⟨⟨e, he, hcarries⟩, before, hlast, htold⟩

/-- A failure about a file was the answer to a question. -/
theorem Heeds.of_error {r : Run ε α} (h : Heeds files unreadable? r) {e : ε} (he : r.result = .error e)
    {p : Path} {g : ReadFailure} (hcarries : unreadable? e = some (p, g)) :
    ∃ q ∈ r.questions, q.path = p ∧ files.Withhold p g := by
  cases h with
  | told _ hfails =>
    rw [hfails e he] at hcarries
    cases hcarries
  | withheld hlast htold hp he' hcarries' =>
    rename_i before q g' e'
    obtain rfl : e = e' := Except.error.inj (he.symm.trans he')
    rw [hcarries] at hcarries'
    cases hcarries'
    exact ⟨q, by simp [hlast], rfl, hp⟩

end Inquiry

theorem Failure.unreadable?_inSource (source whole : Text) (f : Failure) :
    (f.inSource source whole).unreadable? = f.unreadable? := by
  cases f <;> rfl

namespace Context

/-! ## References and directives -/

variable {c : Context} {files : Files} {e : Expander}

theorem refuse_heeds (u : Text) (cause : Cause) :
    Inquiry.Heeds files Failure.unreadable? ((refuse u cause : Inquiry Failure Text).run files) :=
  Inquiry.heeds_fail rfl

theorem lookUp_heeds (c : Context) (files : Files) (u name : Text) :
    Inquiry.Heeds files Failure.unreadable? ((c.lookUp u name).run files) := by
  unfold lookUp
  split
  · exact Inquiry.heeds_pure _
  · exact refuse_heeds u _

/-- A visit to a file that is withheld ends with it; any other goes on as the visited file does. -/
theorem visit_heeds {p : Path}
    (he : ∀ t, Inquiry.Heeds files ExpandError.unreadable? ((e (c.enter p) t).run files)) :
    Inquiry.Heeds files ExpandError.unreadable? ((c.visit e p).run files) := by
  cases hp : files p with
  | error g =>
    rw [run_visit_error hp]
    by_cases hg : g.kind = .notFound
    · rw [if_pos hg]
      exact .told (by simpa using .inr ⟨g, hp, hg⟩) (by simp)
    · rw [if_neg hg]
      exact .withheld (List.nil_append _).symm (by simp) ⟨hp, hg⟩ rfl rfl
  | ok t =>
    have hincluded : Inquiry.Heeds files ExpandError.unreadable?
        (((e (c.enter p) t).bind fun u => .pure (some u)).run files) :=
      (he t).bind fun u => Inquiry.heeds_pure (some u)
    have hfirst : files.Tell p := .inl ⟨t, hp⟩
    rw [Inquiry.run_map] at hincluded
    rw [run_visit_ok hp]
    cases hincluded with
    | told htold hfails => exact .told (List.forall_mem_cons.2 ⟨hfirst, htold⟩) hfails
    | withheld hlast htold hp' he' hcarries =>
      exact .withheld (congrArg (_ :: ·) hlast) (List.forall_mem_cons.2 ⟨hfirst, htold⟩) hp' he' hcarries

theorem includeFirst_heeds
    (he : ∀ p t, Inquiry.Heeds files ExpandError.unreadable? ((e (c.enter p) t).run files))
    (u file : Text) (ps : List Path) :
    Inquiry.Heeds files Failure.unreadable? ((c.includeFirst e u file ps).run files) := by
  induction ps with
  | nil => exact refuse_heeds u _
  | cons p ps ih =>
    by_cases hp : c.OnStack p
    · rw [includeFirst, if_pos hp]
      exact refuse_heeds u _
    · rw [includeFirst_cons hp]
      have hvisit : Inquiry.Heeds files Failure.unreadable?
          (((c.visit e p).mapError Failure.elsewhere).run files) :=
        (visit_heeds (he p)).mapError fun _ => rfl
      refine hvisit.bind ?_
      rintro (_ | t)
      · exact ih
      · exact Inquiry.heeds_pure t

theorem command_heeds
    (he : c.depth < c.maxDepth → ∀ p t,
      Inquiry.Heeds files ExpandError.unreadable? ((e (c.enter p) t).run files))
    (u : Text) (words : List Text) :
    Inquiry.Heeds files Failure.unreadable? ((c.command (c.within e) u words).run files) := by
  rcases command_cases words with rfl | ⟨cause, -, hrefuse⟩ | ⟨file, hfile, rfl⟩
  · exact Inquiry.heeds_pure _
  · rw [hrefuse]
    exact refuse_heeds u cause
  · rw [command_include c _ u hfile, within]
    split_ifs with hd
    · exact includeFirst_heeds (he hd) u file _
    · exact refuse_heeds u _

/-! ## Expansions -/

/-- Expansions heed what they are told. -/
theorem expand_heeds (c : Context) (files : Files) (source s : Text) :
    Inquiry.Heeds files ExpandError.unreadable? ((c.expand source s).run files) := by
  have hincluded : c.depth < c.maxDepth → ∀ p t,
      Inquiry.Heeds files ExpandError.unreadable? ((expandIncluded (c.enter p) t).run files) :=
    fun hd p t => expand_heeds (c.enter p) files p.text t
  have hmeaning : c.meaning.Related (fun x _ => Inquiry.Heeds files Failure.unreadable? (x.run files))
      (fun _ => True) c.meaning :=
    ⟨fun u _ name => lookUp_heeds c files u name, fun u _ words => command_heeds hincluded u words⟩
  have heval := evalText_related (Inquiry.heeds_compositional files _) hmeaning s (fun _ _ => trivial)
    fun _ _ => Inquiry.heeds_fail rfl
  rw [expand_eq_eval]
  exact heval.mapError (Failure.unreadable?_inSource source s)
termination_by c.levelsLeft
decreasing_by exact levelsLeft_enter_lt hd p

theorem eq_unreadable {err : ExpandError} {p : Path} {g : ReadFailure}
    (h : err.unreadable? = some (p, g)) : err = .unreadable p g := by
  cases err with
  | source e => cases h
  | unreadable p' g' =>
    cases h
    rfl

/-! ## Main theorem -/

/-- An expansion fails because a file cannot be read exactly if it asked for one that is withheld. Such a file is the
last that it asked for, of all the others it was told what there is, and the error names that file and says why it
cannot be read, which is never that there is no such file. The one that asked for it is an expansion that is reached,
and all those on the way there fail with that error as it is. -/
theorem unreadable_last (c : Context) (files : Files) (source s : Text) :
    let r := (c.expand source s).run files
    ((∃ p g, r.result = .error (.unreadable p g)) ↔ ∃ q ∈ r.questions, ∃ g, files.Withhold q.path g) ∧
    (∀ q ∈ r.questions, ∀ g, files.Withhold q.path g →
      r.result = .error (.unreadable q.path g) ∧
      ∃ before, r.questions = before ++ [q] ∧ ∀ q' ∈ before, files.Tell q'.path) ∧
    ∀ p g, r.result = .error (.unreadable p g) →
      files.Withhold p g ∧ ∃ b, Relation.ReflTransGen (Calls files) ⟨c, source, s⟩ b ∧
        (∃ before, (b.run files).questions = before ++ [⟨b.context.stack, p⟩]) ∧
        ∀ d, Relation.ReflTransGen (Calls files) ⟨c, source, s⟩ d →
          Relation.ReflTransGen (Calls files) d b → (d.run files).result = .error (.unreadable p g) := by
  intro r
  have hr : Inquiry.Heeds files ExpandError.unreadable? r := expand_heeds c files source s
  have hwithheld : ∀ q ∈ r.questions, ∀ g, files.Withhold q.path g →
      r.result = .error (.unreadable q.path g) ∧
      ∃ before, r.questions = before ++ [q] ∧ ∀ q' ∈ before, files.Tell q'.path := by
    intro q hq g hp
    obtain ⟨⟨err, herr, hcarries⟩, hlast⟩ := hr.of_withhold hq hp
    rw [eq_unreadable hcarries] at herr
    exact ⟨herr, hlast⟩
  refine ⟨⟨?_, ?_⟩, hwithheld, ?_⟩
  · rintro ⟨p, g, herr⟩
    obtain ⟨q, hq, rfl, hp⟩ := hr.of_error herr rfl
    exact ⟨q, hq, g, hp⟩
  · rintro ⟨q, hq, g, hp⟩
    exact ⟨q.path, g, (hwithheld q hq g hp).1⟩
  · intro p g herr
    obtain ⟨q, hq, rfl, hp⟩ := hr.of_error herr rfl
    obtain ⟨b, hb, hstack, hasked⟩ := exists_reached_asking files ⟨c, source, s⟩ hq
    have hb' : Inquiry.Heeds files ExpandError.unreadable? (b.run files) :=
      expand_heeds b.context files b.source b.text
    obtain ⟨⟨err, hfails, hcarries⟩, before, hlast, -⟩ := hb'.of_withhold hasked hp
    rw [eq_unreadable hcarries] at hfails
    refine ⟨hp, b, hb, ⟨before, ?_⟩, fun d _ hd => error_of_reached hd hfails⟩
    rw [hlast, ← hstack]

end Context

end TextTemplate

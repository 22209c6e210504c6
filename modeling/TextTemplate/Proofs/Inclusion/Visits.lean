import TextTemplate.Proofs.Inclusion.Recursion
import TextTemplate.Proofs.Template.Evaluation

/-!
# What the expansion of one file does

A run of an expansion is a list of visits to candidates, one after the other, each with all that the visited
file does in its turn. A visit that fails ends the run with its failure. Any other failure is that of a
reference or a directive, and `Context.Refuses` lists the causes.

Main results:
* `Context.includeFirst_visits`: the search for an include.
* `Context.command_visits`, `Context.lookUp_visits`: directives and references.
* `Context.expandGiven_visits_of_derives`, `Context.expandGiven_visits_of_read_error`: the expansion of a
  template, and that of a text that is none.
* `Context.expandGiven_visits`: the expansion of any text.
-/

namespace TextTemplate.Context

/-! ## Refusals -/

/-- The causes for which a context refuses a reference or a directive. -/
inductive Refuses (c : Context) (files : Files) : Cause → Prop
  | undefinedVariable {name : Text} : c.bindings.get? name = none →
      Refuses c files (.undefinedVariable name (suggestions name c.bindings.names))
  | unknownCommand {name : Text} : name ≠ includeCommand →
      Refuses c files (.unknownCommand name (suggestions name commands))
  | includeArity {n : Nat} : n ≠ 1 → Refuses c files (.includeArity n)
  | emptyFileName : Refuses c files (.syntaxError .emptyFileName)
  | depthExceeded : c.maxDepth ≤ c.depth → Refuses c files (.depthExceeded c.maxDepth)
  | recursiveInclude {file : Text} {p : Path} : file ≠ [] → c.depth < c.maxDepth →
      p ∈ c.candidates ⟨file⟩ → c.OnStack p → Refuses c files (.recursiveInclude (c.stack ++ [p]))
  | includeNotFound {file : Text} : file ≠ [] → c.depth < c.maxDepth →
      (∀ p ∈ c.candidates ⟨file⟩,
        ¬ c.OnStack p ∧ ∃ g, files p = .error g ∧ g.kind = .notFound) →
      Refuses c files (.includeNotFound file)

/-- The causes for which the words of a directive are refused as they stand, whatever the context. -/
inductive Misworded : List Text → Cause → Prop
  | unknownCommand {name : Text} {arguments : List Text} : name ≠ includeCommand →
      Misworded (name :: arguments) (.unknownCommand name (suggestions name commands))
  | includeArity {arguments : List Text} : arguments.length ≠ 1 →
      Misworded (includeCommand :: arguments) (.includeArity arguments.length)
  | emptyFileName : Misworded [includeCommand, []] (.syntaxError .emptyFileName)

theorem Misworded.refuses {words : List Text} {cause : Cause} (h : Misworded words cause)
    (c : Context) (files : Files) : c.Refuses files cause := by
  cases h with
  | unknownCommand hname => exact .unknownCommand hname
  | includeArity hone => exact .includeArity hone
  | emptyFileName => exact .emptyFileName

/-- Only words that name a file to include can mean something else in another context. -/
theorem command_cases (words : List Text) :
    words = [] ∨
      (∃ cause, Misworded words cause ∧
        ∀ (c : Context) (x : Option Expander) (u : Text), c.command x u words = refuse u cause) ∨
      ∃ file, file ≠ [] ∧ words = [includeCommand, file] := by
  cases words with
  | nil => exact .inl rfl
  | cons name arguments =>
    right
    by_cases hname : name = includeCommand
    · subst hname
      by_cases hone : arguments.length = 1
      · obtain ⟨file, rfl⟩ := List.length_eq_one_iff.1 hone
        by_cases hfile : file = []
        · subst hfile
          exact .inl ⟨_, .emptyFileName, fun _ _ _ => rfl⟩
        · exact .inr ⟨file, hfile, rfl⟩
      · refine .inl ⟨_, .includeArity hone, fun c x u => ?_⟩
        rw [command, if_pos rfl]
        rintro file rfl
        exact hone rfl
    · exact .inl ⟨_, .unknownCommand hname, fun c x u => if_neg hname⟩

/-- What an include stands for: a search, where another file may be entered. -/
theorem command_include (c : Context) (x : Option Expander) (u : Text) {file : Text}
    (hfile : file ≠ []) :
    c.command x u [includeCommand, file] =
      match x with
      | none => refuse u (.depthExceeded c.maxDepth)
      | some e => c.includeFirst e u file (c.candidates ⟨file⟩) := by
  rw [command, if_pos rfl]
  exact if_neg hfile

/-! ## Visits -/

theorem run_visit_ok {files : Files} {p : Path} {t : Text} (h : files p = .ok t) (c : Context)
    (e : Expander) :
    ((c.visit e p).run files) =
      ⟨⟨c.stack, p⟩ :: ((e (c.enter p) t).run files).questions,
        ((e (c.enter p) t).run files).result.map some⟩ := by
  rw [visit, Inquiry.run_ask]
  simp only [h]
  rw [Inquiry.run_bind]
  cases ((e (c.enter p) t).run files).result <;> simp [Except.map]

theorem run_visit_error {files : Files} {p : Path} {g : ReadFailure} (h : files p = .error g)
    (c : Context) (e : Expander) :
    ((c.visit e p).run files) =
      ⟨[⟨c.stack, p⟩],
        if g.kind = .notFound then .ok none else .error (.unreadable p g)⟩ := by
  rw [visit, Inquiry.run_ask]
  simp only [h]
  split_ifs <;> simp

/-- A visit finds nothing only where there is no such file. -/
theorem notFound_of_run_visit {files : Files} {c : Context} {e : Expander} {p : Path}
    (h : ((c.visit e p).run files).result = .ok none) :
    ∃ g, files p = .error g ∧ g.kind = .notFound := by
  cases hp : files p with
  | ok t =>
    rw [run_visit_ok hp] at h
    obtain ⟨t', -, ht'⟩ := exists_of_map_eq_ok h
    cases ht'
  | error g =>
    rw [run_visit_error hp] at h
    simp only at h
    split_ifs at h with hg
    exact ⟨g, rfl, hg⟩

/-- A visit to a file that is there fails as the expansion of the file does. -/
theorem error_of_run_visit {files : Files} {c : Context} {e : Expander} {p : Path} {t : Text}
    (hp : files p = .ok t) {err : ExpandError}
    (h : ((c.visit e p).run files).result = .error err) :
    ((e (c.enter p) t).run files).result = .error err := by
  rw [run_visit_ok hp] at h
  exact error_of_map_eq_error h

/-- A visit to a file that cannot be read fails because of that. -/
theorem unreadable_of_run_visit {files : Files} {c : Context} {e : Expander} {p : Path}
    {g : ReadFailure} (hp : files p = .error g) {err : ExpandError}
    (h : ((c.visit e p).run files).result = .error err) : err = .unreadable p g := by
  rw [run_visit_error hp] at h
  simp only at h
  split_ifs at h
  cases h
  rfl

variable {c : Context} {e : Expander} {files : Files} {ε δ α β : Type} {wrap : ExpandError → ε}
  {Q : ε → Prop}

/-- The run is made of visits to the paths, in order; it fails with the failure of a visit, which is handed on
    by `wrap`, and else only as `Q` says. -/
structure Visits (c : Context) (e : Expander) (files : Files) (wrap : ExpandError → ε) (Q : ε → Prop)
    (r : Inquiry.Run ε α) (vs : List Path) : Prop where
  /-- The questions are those of the visits. -/
  questions : r.questions = vs.flatMap fun p => ((c.visit e p).run files).questions
  /-- Nothing that is being expanded is visited, and nothing from a stack as deep as allowed. -/
  fresh : ∀ p ∈ vs, ¬ c.OnStack p ∧ c.depth < c.maxDepth
  /-- A visit that fails ends the run. -/
  fatal : ∀ p ∈ vs, ∀ err, ((c.visit e p).run files).result = .error err →
    r.result = .error (wrap err)
  /-- The run fails because a visit did, or as `Q` says. -/
  failure : ∀ f, r.result = .error f →
    (∃ p ∈ vs, ∃ err, ((c.visit e p).run files).result = .error err ∧ f = wrap err) ∨ Q f

namespace Visits

theorem pure (a : α) : Visits c e files wrap Q ((Inquiry.pure a : Inquiry ε α).run files) [] where
  questions := rfl
  fresh := by simp
  fatal := by simp
  failure := by simp

theorem fail {f : ε} (hf : Q f) :
    Visits c e files wrap Q ((Inquiry.fail f : Inquiry ε α).run files) [] where
  questions := rfl
  fresh := by simp
  fatal := by simp
  failure := by
    intro f' h
    cases h
    exact .inr hf

theorem visit {p : Path} (hp : ¬ c.OnStack p) (hd : c.depth < c.maxDepth) :
    Visits c e files wrap Q (((c.visit e p).mapError wrap).run files) [p] where
  questions := by rw [Inquiry.run_mapError]; simp
  fresh := by simpa using ⟨hp, hd⟩
  fatal := by
    intro q hq err h
    obtain rfl : q = p := by simpa using hq
    rw [Inquiry.run_mapError, h]
    rfl
  failure := by
    intro f h
    obtain ⟨err, herr, rfl⟩ := Inquiry.run_mapError_eq_error_iff.1 h
    exact .inl ⟨p, List.mem_cons_self, err, herr, rfl⟩

theorem mono {Q' : ε → Prop} {r : Inquiry.Run ε α} {vs : List Path}
    (h : Visits c e files wrap Q r vs) (hQ : ∀ f, Q f → Q' f) : Visits c e files wrap Q' r vs :=
  { h with failure := fun f hf => (h.failure f hf).imp_right (hQ f) }

theorem mem_questions {r : Inquiry.Run ε α} {vs : List Path} (h : Visits c e files wrap Q r vs)
    {p : Path} (hp : p ∈ vs) : ⟨c.stack, p⟩ ∈ r.questions := by
  rw [h.questions]
  refine List.mem_flatMap.2 ⟨p, hp, ?_⟩
  rw [Context.visit, Inquiry.run_ask]
  exact List.mem_cons_self

theorem mapError {x : Inquiry ε α} {vs : List Path} (g : ε → δ)
    (h : Visits c e files wrap Q (x.run files) vs) :
    Visits c e files (fun err => g (wrap err)) (fun f' => ∃ f, Q f ∧ f' = g f)
      ((x.mapError g).run files) vs where
  questions := by rw [Inquiry.run_mapError, h.questions]
  fresh := h.fresh
  fatal := by
    intro p hp err herr
    rw [Inquiry.run_mapError, h.fatal p hp err herr]
    rfl
  failure := by
    intro f' hf'
    obtain ⟨f, hf, rfl⟩ := Inquiry.run_mapError_eq_error_iff.1 hf'
    rcases h.failure f hf with ⟨p, hp, err, herr, rfl⟩ | hQ
    · exact .inl ⟨p, hp, err, herr, rfl⟩
    · exact .inr ⟨f, hQ, rfl⟩

/-- Going on adds the visits of what follows. -/
theorem bind {x : Inquiry ε α} {f : α → Inquiry ε β} {vs : List Path}
    (hx : Visits c e files wrap Q (x.run files) vs)
    (hf : ∀ a, (x.run files).result = .ok a →
      ∃ ws, Visits c e files wrap Q ((f a).run files) ws) :
    ∃ ws, Visits c e files wrap Q ((x.bind f).run files) ws := by
  cases hr : (x.run files).result with
  | ok a =>
    obtain ⟨ws, hw⟩ := hf a hr
    rw [Inquiry.run_bind_ok hr]
    refine ⟨vs ++ ws, ?_, ?_, ?_, ?_⟩
    · simp only [hx.questions, hw.questions, List.flatMap_append]
    · intro p hp
      rcases List.mem_append.1 hp with hp | hp
      · exact hx.fresh p hp
      · exact hw.fresh p hp
    · intro p hp err herr
      rcases List.mem_append.1 hp with hp | hp
      · -- a visit that fails would have ended the first part
        have := hx.fatal p hp err herr
        rw [hr] at this
        cases this
      · exact hw.fatal p hp err herr
    · intro g hg
      rcases hw.failure g hg with ⟨p, hp, herr⟩ | hQ
      · exact .inl ⟨p, List.mem_append_right _ hp, herr⟩
      · exact .inr hQ
  | error g =>
    rw [Inquiry.run_bind_error hr]
    refine ⟨vs, hx.questions, hx.fresh, ?_, ?_⟩
    · intro p hp err herr
      have := hx.fatal p hp err herr
      rw [hr] at this
      cases this
      rfl
    · intro g' hg
      cases hg
      exact hx.failure g hr

end Visits

/-! ## References and directives -/

section Steps

variable {Q : Failure → Prop}

theorem lookUp_visits {u : Text} (hQ : ∀ cause, c.Refuses files cause → Q (.here ⟨u, cause⟩))
    (name : Text) : ∃ vs, Visits c e files Failure.elsewhere Q ((c.lookUp u name).run files) vs := by
  unfold lookUp
  split
  · exact ⟨[], .pure _⟩
  · rename_i h; exact ⟨[], .fail (hQ _ (.undefinedVariable h))⟩

/-- The search goes through the candidates, and those behind which it goes on are no files. -/
theorem includeFirst_visits {u file : Text} (hfile : file ≠ []) (hd : c.depth < c.maxDepth)
    (hQ : ∀ cause, c.Refuses files cause → Q (.here ⟨u, cause⟩)) (ps : List Path) :
    ∀ pre, c.candidates ⟨file⟩ = pre ++ ps →
      (∀ p ∈ pre, ¬ c.OnStack p ∧ ∃ g, files p = .error g ∧ g.kind = .notFound) →
      ∃ vs, Visits c e files Failure.elsewhere Q ((c.includeFirst e u file ps).run files) vs := by
  induction ps with
  | nil =>
    intro pre hpre hmiss
    rw [List.append_nil] at hpre
    exact ⟨[], .fail (hQ _ (.includeNotFound hfile hd (hpre ▸ hmiss)))⟩
  | cons p ps ih =>
    intro pre hpre hmiss
    by_cases hp : c.OnStack p
    · rw [includeFirst, if_pos hp]
      have hmem : p ∈ c.candidates ⟨file⟩ := by rw [hpre]; simp
      exact ⟨[], .fail (hQ _ (.recursiveInclude hfile hd hmem hp))⟩
    · rw [includeFirst_cons hp]
      refine (Visits.visit hp hd).bind fun o ho => ?_
      cases o with
      | some t => exact ⟨[], .pure t⟩
      | none =>
        have hnone := Inquiry.run_mapError_eq_ok_iff.1 ho
        refine ih (pre ++ [p]) (by rw [hpre]; simp) ?_
        intro q hq
        rcases List.mem_append.1 hq with hq | hq
        · exact hmiss q hq
        · obtain rfl : q = p := by simpa using hq
          exact ⟨hp, notFound_of_run_visit hnone⟩

theorem command_visits {u : Text} (hQ : ∀ cause, c.Refuses files cause → Q (.here ⟨u, cause⟩))
    (words : List Text) :
    ∃ vs, Visits c e files Failure.elsewhere Q ((c.command (c.within e) u words).run files) vs := by
  rcases command_cases words with rfl | ⟨cause, hcause, hrefuse⟩ | ⟨file, hfile, rfl⟩
  · exact ⟨[], .pure []⟩
  · rw [hrefuse]
    exact ⟨[], .fail (hQ cause (hcause.refuses c files))⟩
  · rw [command_include c _ u hfile, within]
    split_ifs with hd
    · exact includeFirst_visits hfile hd hQ _ [] rfl (by simp)
    · exact ⟨[], .fail (hQ _ (.depthExceeded (Nat.le_of_not_lt hd)))⟩

end Steps

/-! ## Texts -/

/-- A reference or directive of `s`, before `r`, is refused. -/
def Refusal (c : Context) (files : Files) (s r : Text) (f : Failure) : Prop :=
  ∃ u cause, DollarBefore s r u ∧ c.Refuses files cause ∧ f = .here ⟨u, cause⟩

theorem visits_compositional (c : Context) (e : Expander) (files : Files) (Q : Failure → Prop) :
    Inquiry.Compositional fun x _ => ∃ vs, Visits c e files Failure.elsewhere Q (x.run files) vs where
  pure a := ⟨[], .pure a⟩
  bind := by
    rintro α β x y f g ⟨vs, hx⟩ hf
    exact hx.bind fun a _ => hf a

/-- The steps of an evaluation make visits, wherever they start. -/
theorem semantics_visits (c : Context) (e : Expander) (files : Files) (s r : Text) :
    (c.semantics (c.within e)).Related
      (fun x _ => ∃ vs, Visits c e files Failure.elsewhere (c.Refusal files s r) (x.run files) vs)
      (DollarBefore s r) (c.semantics (c.within e)) where
  reference u hu name := lookUp_visits (fun cause h => ⟨u, cause, hu, h, rfl⟩) name
  directive u hu words := command_visits (fun cause h => ⟨u, cause, hu, h, rfl⟩) words

theorem template_visits (c : Context) (e : Expander) (files : Files) {t : Template} {s : Text}
    (ht : t.Derives s) :
    ∃ vs, Visits c e files Failure.elsewhere (c.Refusal files s [])
      ((t.eval (c.semantics (c.within e))).run files) vs :=
  Template.eval_related (visits_compositional c e files _) (semantics_visits c e files s []) ht
    fun _ hu => hu

theorem truncation_visits (c : Context) (e : Expander) (files : Files) {t : Truncation} {s : Text}
    (ht : t.LiesIn s) :
    ∃ vs, Visits c e files Failure.elsewhere
      (fun f => c.Refusal files s t.fault.rest f ∨ f = .here t.fault.defect)
      ((t.eval (c.semantics (c.within e))).run files) vs := by
  obtain ⟨vs, hvs⟩ := evalParts_related (visits_compositional c e files _)
    (semantics_visits c e files s t.fault.rest) t.before ht.before
  exact (hvs.mono fun _ h => .inl h).bind fun _ _ => ⟨[], .fail (.inr rfl)⟩

/-! ## Expansions -/

/-- A reference or directive of `s`, before `r`, is refused, and the error is located in the source of that
    name. -/
def Located (c : Context) (files : Files) (source s r : Text) (err : ExpandError) : Prop :=
  ∃ u cause, DollarBefore s r u ∧ c.Refuses files cause ∧
    err = .source (Defect.inSource source s ⟨u, cause⟩)

theorem expandGiven_visits_of_derives (c : Context) (e : Expander) (files : Files) (source : Text)
    {t : Template} {s : Text} (ht : t.Derives s) :
    ∃ vs, Visits c e files id (c.Located files source s [])
      ((c.expandGiven e source s).run files) vs := by
  obtain ⟨vs, hvs⟩ := template_visits c e files ht
  rw [expandGiven_eq, evalText, ht.read]
  refine ⟨vs, (hvs.mapError (Failure.inSource source s)).mono ?_⟩
  rintro err ⟨f, ⟨u, cause, hu, hc, rfl⟩, rfl⟩
  exact ⟨u, cause, hu, hc, rfl⟩

theorem expandGiven_visits_of_read_error (c : Context) (e : Expander) (files : Files)
    (source : Text) {t : Truncation} {s : Text} (ht : Template.read s = .error t) :
    ∃ vs, Visits c e files id
      (fun err => c.Located files source s t.fault.rest err ∨
        err = .source (t.fault.defect.inSource source s))
      ((c.expandGiven e source s).run files) vs := by
  obtain ⟨vs, hvs⟩ := truncation_visits c e files ((Template.read_yields s).of_error ht).toLiesIn
  rw [expandGiven_eq, evalText, ht]
  refine ⟨vs, (hvs.mapError (Failure.inSource source s)).mono ?_⟩
  rintro err ⟨f, ⟨u, cause, hu, hc, rfl⟩ | rfl, rfl⟩
  · exact .inl ⟨u, cause, hu, hc, rfl⟩
  · exact .inr rfl

/-- Whatever the text, its expansion is made of visits, and else fails in the text itself only: where a step
    of it is refused, or at its fault. -/
theorem expandGiven_visits (c : Context) (e : Expander) (files : Files) (source s : Text) :
    ∃ vs, Visits c e files id
      (fun err => c.Located files source s [] err ∨
        ∃ t : Truncation, t.LiesIn s ∧ err = .source (t.fault.defect.inSource source s))
      ((c.expandGiven e source s).run files) vs := by
  cases hs : Template.read s with
  | ok t =>
    obtain ⟨vs, hvs⟩ :=
      expandGiven_visits_of_derives c e files source (Template.read_eq_ok_iff.1 hs)
    exact ⟨vs, hvs.mono fun _ h => .inl h⟩
  | error t =>
    obtain ⟨vs, hvs⟩ := expandGiven_visits_of_read_error c e files source hs
    refine ⟨vs, hvs.mono ?_⟩
    rintro err (⟨u, cause, hu, hc, rfl⟩ | rfl)
    · exact .inl ⟨u, cause, hu.mono List.suffix_rfl List.nil_suffix, hc, rfl⟩
    · exact .inr ⟨t, ((Template.read_yields s).of_error hs).toLiesIn, rfl⟩

end TextTemplate.Context

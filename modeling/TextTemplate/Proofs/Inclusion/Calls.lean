import TextTemplate.Proofs.Inclusion.Visits

/-!
# The calls that an expansion makes

One expansion calls another if its run would be another one, were the outcome of the other not what it is. This
says nothing about how the search for includes is done; it is shown to come down to what a run asks for: an
expansion calls those of the files that it asked for itself and was given.

Main results:
* `Context.stack_prefix`: every question of a run is asked from the stack up.
* `Context.run_expandGiven_congr`: runs that only differ in what is called.
* `calls_iff`: what is called, and when.
* `fresh_of_question`, `questions_of_question`, `error_of_question`: what a call has to do with its caller.
-/

namespace TextTemplate

/-! ## Specification -/

/-- One expansion: of a text, which a named source holds, in a context. -/
structure Call where
  /-- The context. -/
  context : Context
  /-- The name of the source. -/
  source : Text
  /-- The text. -/
  text : Text

namespace Call

/-- The run of an expansion. -/
def run (a : Call) (files : Files) : Inquiry.Run ExpandError Text :=
  (a.context.expand a.source a.text).run files

/-- The run of an expansion, with included files expanded as given. -/
def runGiven (a : Call) (e : Context.Expander) (files : Files) : Inquiry.Run ExpandError Text :=
  (a.context.expandGiven e a.source a.text).run files

/-- The expansion of a file that is found for another. -/
def included (a : Call) (p : Path) (t : Text) : Call := ⟨a.context.enter p, p.text, t⟩

/-- The expansion fails in its own text: where a step of it is refused, or at the fault of a text that is no
    template. -/
def FailsItself (files : Files) (a : Call) (err : ExpandError) : Prop :=
  a.context.Located files a.source a.text [] err ∨
    ∃ t : Truncation, t.LiesIn a.text ∧ err = .source (t.fault.defect.inSource a.source a.text)

end Call

/-- The expansion `a` calls `b`: if included files were expanded as they are but for `b`, the run of `a` could
    be another one. -/
def Calls (files : Files) (a b : Call) : Prop :=
  b.source = b.context.current.text ∧ ∃ e : Context.Expander,
    (∀ c t, (c, t) ≠ (b.context, b.text) → e c t = Context.expandIncluded c t) ∧
    a.runGiven e files ≠ a.run files

/-! ## Questions of one expansion -/

namespace Context

theorem levelsLeft_enter_lt {c : Context} (h : c.depth < c.maxDepth) (p : Path) :
    (c.enter p).levelsLeft < c.levelsLeft := by
  rw [levelsLeft_enter, levelsLeft]
  omega

/-- Whatever is asked during an expansion is asked from its stack up. -/
theorem stack_prefix {files : Files} (c : Context) {source s : Text} {q : Question}
    (hq : q ∈ ((c.expand source s).run files).questions) : c.stack <+: q.stack := by
  obtain ⟨vs, hvs⟩ := expandGiven_visits c expandIncluded files source s
  rw [← expand_eq] at hvs
  rw [hvs.questions] at hq
  obtain ⟨p, hp, hq⟩ := List.mem_flatMap.1 hq
  have hdepth := (hvs.fresh p hp).2
  cases hfile : files p with
  | error g =>
    rw [run_visit_error hfile] at hq
    obtain rfl : q = ⟨c.stack, p⟩ := by simpa using hq
    exact List.prefix_rfl
  | ok t =>
    rw [run_visit_ok hfile] at hq
    rcases List.mem_cons.1 hq with rfl | hq
    · exact List.prefix_rfl
    · have := stack_prefix (c.enter p) hq
      rw [stack_enter] at this
      exact (List.prefix_append _ _).trans this
termination_by c.levelsLeft
decreasing_by exact levelsLeft_enter_lt hdepth p

/-- An expander asks from the stack up. -/
def Upward (files : Files) (e : Expander) : Prop :=
  ∀ c t, ∀ q ∈ ((e c t).run files).questions, c.stack <+: q.stack

theorem upward_expandIncluded (files : Files) : Upward files expandIncluded :=
  fun c _ _ hq => stack_prefix c hq

/-- What is asked from the very stack of an expansion belongs to its own visits. -/
theorem mem_visits_of_question {c : Context} {e : Expander} {files : Files} {ε α : Type}
    {wrap : ExpandError → ε} {Q : ε → Prop} {r : Inquiry.Run ε α} {vs : List Path}
    (he : Upward files e) (hvs : Visits c e files wrap Q r vs) {p : Path}
    (hp : ⟨c.stack, p⟩ ∈ r.questions) : p ∈ vs := by
  rw [hvs.questions] at hp
  obtain ⟨p', hp', hq⟩ := List.mem_flatMap.1 hp
  cases hfile : files p' with
  | error g =>
    rw [run_visit_error hfile] at hq
    obtain rfl : p = p' := by simpa using hq
    exact hp'
  | ok t =>
    rw [run_visit_ok hfile] at hq
    rcases List.mem_cons.1 hq with h | hq
    · cases h; exact hp'
    · -- the stack of the included file is longer
      have hlen := (he _ _ _ hq).length_le
      rw [stack_enter, List.length_append, List.length_singleton] at hlen
      exact absurd hlen (Nat.not_succ_le_self _)

end Context

/-! ## Runs that only differ in what is called -/

namespace Context

/-- The first inquiry determines the run of the second, as long as the expanders agree on the files that it
    asks for and is given. -/
def SameRun (c : Context) (e e' : Expander) (files : Files) {α : Type} (x y : Inquiry Failure α) :
    Prop :=
  (∀ p t, ⟨c.stack, p⟩ ∈ (x.run files).questions → files p = .ok t →
    e' (c.enter p) t = e (c.enter p) t) → y.run files = x.run files

theorem sameRun_compositional (c : Context) (e e' : Expander) (files : Files) :
    Inquiry.Compositional (c.SameRun e e' files) where
  pure a := fun _ => rfl
  bind := by
    intro α β x y f g hx hf h
    have hquestions : ∀ q ∈ (x.run files).questions, q ∈ ((x.bind f).run files).questions := by
      intro q hq
      rw [Inquiry.run_bind]
      split
      · exact List.mem_append_left _ hq
      · exact hq
    have hy := hx fun p t hp => h p t (hquestions _ hp)
    cases hr : (x.run files).result with
    | ok a =>
      rw [Inquiry.run_bind_ok hr] at h ⊢
      rw [Inquiry.run_bind_ok (hy ▸ hr), hy, hf a fun p t hp => h p t (List.mem_append_right _ hp)]
    | error err => rw [Inquiry.run_bind_error hr, Inquiry.run_bind_error (hy ▸ hr), hy]

theorem visit_sameRun (c : Context) (e e' : Expander) (files : Files) (p : Path) :
    c.SameRun e e' files ((c.visit e p).mapError .elsewhere) ((c.visit e' p).mapError .elsewhere) := by
  intro h
  have hp : ⟨c.stack, p⟩ ∈ (((c.visit e p).mapError Failure.elsewhere).run files).questions := by
    rw [Inquiry.run_mapError, visit, Inquiry.run_ask]
    exact List.mem_cons_self
  rw [Inquiry.run_mapError, Inquiry.run_mapError]
  cases hfile : files p with
  | ok t => rw [run_visit_ok hfile, run_visit_ok hfile, h p t hp hfile]
  | error g => rw [run_visit_error hfile, run_visit_error hfile]

theorem includeFirst_sameRun (c : Context) (e e' : Expander) (files : Files) (start file : Text)
    (ps : List Path) :
    c.SameRun e e' files (c.includeFirst e start file ps) (c.includeFirst e' start file ps) := by
  induction ps with
  | nil => exact fun _ => rfl
  | cons p ps ih =>
    by_cases hp : c.OnStack p
    · rw [includeFirst, includeFirst, if_pos hp, if_pos hp]
      exact fun _ => rfl
    · rw [includeFirst_cons hp, includeFirst_cons hp]
      refine (sameRun_compositional c e e' files).bind (visit_sameRun c e e' files p) fun o => ?_
      cases o with
      | some t => exact fun _ => rfl
      | none => exact ih

theorem command_sameRun (c : Context) (e e' : Expander) (files : Files) (start : Text)
    (words : List Text) :
    c.SameRun e e' files (c.command (c.within e) start words)
      (c.command (c.within e') start words) := by
  rcases command_cases words with rfl | ⟨cause, -, hrefuse⟩ | ⟨file, hfile, rfl⟩
  · exact fun _ => rfl
  · rw [hrefuse, hrefuse]
    exact fun _ => rfl
  · rw [command_include c _ start hfile, command_include c _ start hfile, within, within]
    split_ifs
    · exact includeFirst_sameRun c e e' files start file _
    · exact fun _ => rfl

/-- Expanders that agree on the files that a run asked for and was given lead to the same run. -/
theorem run_expandGiven_congr {c : Context} {e e' : Expander} {files : Files} {source s : Text}
    (h : ∀ p t, ⟨c.stack, p⟩ ∈ ((c.expandGiven e source s).run files).questions →
      files p = .ok t → e' (c.enter p) t = e (c.enter p) t) :
    (c.expandGiven e' source s).run files = (c.expandGiven e source s).run files := by
  have hm : (c.semantics (c.within e)).Related (c.SameRun e e' files) (fun _ => True)
      (c.semantics (c.within e')) := by
    refine ⟨fun u _ name _ => rfl, fun u _ words => ?_⟩
    exact command_sameRun c e e' files u words
  have heval := evalText_related (sameRun_compositional c e e' files) hm s (fun _ _ => trivial)
    fun _ _ _ => rfl
  rw [expandGiven_eq, Inquiry.run_mapError] at h
  rw [expandGiven_eq, expandGiven_eq, Inquiry.run_mapError, Inquiry.run_mapError, heval h]

end Context

/-! ## What is called -/

section Called

variable {files : Files} {a b : Call} {p : Path} {t : Text}

theorem Call.runGiven_expandIncluded (a : Call) (files : Files) :
    a.runGiven Context.expandIncluded files = a.run files := by
  rw [Call.runGiven, Call.run, Context.expand_eq]

/-- The visits of an expansion, which else fails in its own text only. -/
theorem Call.run_visits (a : Call) (files : Files) :
    ∃ vs, Context.Visits a.context Context.expandIncluded files id (a.FailsItself files)
      (a.run files) vs := by
  obtain ⟨vs, hvs⟩ :=
    Context.expandGiven_visits a.context Context.expandIncluded files a.source a.text
  rw [← Context.expand_eq] at hvs
  exact ⟨vs, hvs⟩

/-- Included files expanded as they are, but for one, of which the expansion fails. -/
def failingAt (b : Call) (err : ExpandError) : Context.Expander := fun c t =>
  if (c, t) = (b.context, b.text) then .fail err else Context.expandIncluded c t

theorem upward_failingAt (files : Files) (b : Call) (err : ExpandError) :
    Context.Upward files (failingAt b err) := by
  intro c t q hq
  unfold failingAt at hq
  split_ifs at hq
  · simp at hq
  · exact Context.upward_expandIncluded files c t q hq

/-- Where the included file fails, the expansion fails with it. -/
theorem runGiven_failingAt (hq : ⟨a.context.stack, p⟩ ∈ (a.run files).questions)
    (hp : files p = .ok t) (err : ExpandError)
    (hrun : a.runGiven (failingAt (a.included p t) err) files = a.run files) :
    (a.run files).result = .error err := by
  obtain ⟨vs, hvs⟩ := Context.expandGiven_visits a.context (failingAt (a.included p t) err) files
    a.source a.text
  have hmem : p ∈ vs := by
    refine Context.mem_visits_of_question (upward_failingAt files _ err) hvs ?_
    rw [← hrun] at hq
    exact hq
  rw [← hrun]
  refine hvs.fatal p hmem err ?_
  rw [Context.run_visit_ok hp]
  have hfail : failingAt (a.included p t) err (a.context.enter p) t = .fail err := if_pos rfl
  rw [hfail]
  rfl

/-- An expansion calls those of the files that it asked for itself and was given. -/
theorem calls_iff : Calls files a b ↔ ∃ p t, ⟨a.context.stack, p⟩ ∈ (a.run files).questions ∧
    files p = .ok t ∧ b = a.included p t := by
  constructor
  · rintro ⟨hsource, e, he, hrun⟩
    by_contra hnone
    refine hrun ?_
    rw [← Call.runGiven_expandIncluded] at hnone ⊢
    refine Context.run_expandGiven_congr fun p t hq hp => he _ _ fun heq => ?_
    obtain ⟨c, s, u⟩ := b
    obtain ⟨rfl, rfl⟩ := Prod.mk.inj heq
    obtain rfl : s = p.text := hsource
    exact hnone ⟨p, t, hq, hp, rfl⟩
  · rintro ⟨p, t, hq, hp, rfl⟩
    refine ⟨rfl, ?_⟩
    by_contra hnone
    -- if nothing that the file does could change the run, the run would fail with every error
    have hall : ∀ err, (a.run files).result = .error err := by
      intro err
      refine runGiven_failingAt hq hp err ?_
      by_contra hrun
      exact hnone ⟨failingAt (a.included p t) err, fun c u h => if_neg h, hrun⟩
    have := (hall (.unreadable p ⟨.other, []⟩)).symm.trans (hall (.unreadable p ⟨.notFound, []⟩))
    cases this

/-- What an expansion asked for from its own stack, it visited. -/
theorem Call.run_visits_of_question (hq : ⟨a.context.stack, p⟩ ∈ (a.run files).questions) :
    ∃ vs, Context.Visits a.context Context.expandIncluded files id (a.FailsItself files)
      (a.run files) vs ∧ p ∈ vs := by
  obtain ⟨vs, hvs⟩ := a.run_visits files
  exact ⟨vs, hvs, Context.mem_visits_of_question (Context.upward_expandIncluded files) hvs hq⟩

/-- The files that an expansion asked for itself were not being expanded, and its stack was not as deep as
    allowed. -/
theorem fresh_of_question (hq : ⟨a.context.stack, p⟩ ∈ (a.run files).questions) :
    ¬ a.context.OnStack p ∧ a.context.depth < a.context.maxDepth := by
  obtain ⟨vs, hvs, hp⟩ := Call.run_visits_of_question hq
  exact hvs.fresh p hp

/-- The questions of an included file follow the question for it. -/
theorem questions_of_question (hq : ⟨a.context.stack, p⟩ ∈ (a.run files).questions)
    (hp : files p = .ok t) :
    ∃ pre post, (a.run files).questions =
      pre ++ ⟨a.context.stack, p⟩ :: ((a.included p t).run files).questions ++ post := by
  obtain ⟨vs, hvs, hmem⟩ := Call.run_visits_of_question hq
  obtain ⟨before, after, rfl⟩ := List.append_of_mem hmem
  have h := hvs.questions
  rw [List.flatMap_append, List.flatMap_cons, Context.run_visit_ok hp, ← List.append_assoc] at h
  exact ⟨_, _, h⟩

/-- The error of an included file is that of the including one. -/
theorem error_of_question (hq : ⟨a.context.stack, p⟩ ∈ (a.run files).questions)
    (hp : files p = .ok t) {err : ExpandError}
    (herr : ((a.included p t).run files).result = .error err) :
    (a.run files).result = .error err := by
  obtain ⟨vs, hvs, hmem⟩ := Call.run_visits_of_question hq
  refine hvs.fatal p hmem err ?_
  rw [Context.run_visit_ok hp]
  exact congrArg (Except.map some) herr

end Called

end TextTemplate

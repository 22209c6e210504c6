import Mathlib.Data.Set.Finite.Lattice
import Mathlib.Logic.Relation
import TextTemplate.Proofs.Inclusion.Calls

/-!
# The expansions that are reached by calls

From one expansion others are reached by calling, one from the other. Each call leaves fewer files that may
still be entered, so there are finitely many.

Main results:
* `acc_calls`, `finite_reached`: no chain of calls goes on for ever, and finitely many expansions are reached.
* `settings_of_reached`, `given_of_reached`, `mem_questions_of_reached`, `error_of_reached`: the settings, texts, questions
  and errors of what is reached.
* `exists_reached_asking`, `exists_reached_failing`, `exists_reached_of_error`: where questions and errors come from.
-/

namespace TextTemplate

variable {files : Files} {a b : Call}

/-! ## Chains of calls -/

theorem levelsLeft_lt_of_calls (h : Calls files a b) :
    b.context.levelsLeft < a.context.levelsLeft := by
  obtain ⟨p, t, hq, -, rfl⟩ := calls_iff.1 h
  exact Context.levelsLeft_enter_lt (fresh_of_question hq).2 p

theorem acc_calls (files : Files) (a : Call) : Acc (fun b a => Calls files a b) a :=
  Acc.intro a fun b _ => acc_calls files b
termination_by a.context.levelsLeft
decreasing_by exact levelsLeft_lt_of_calls ‹_›

theorem finite_calls (files : Files) (a : Call) : {b | Calls files a b}.Finite := by
  have hone : ∀ p, {b | ∃ t, files p = .ok t ∧ b = a.included p t}.Finite := by
    intro p
    refine Set.Subsingleton.finite ?_
    rintro _ ⟨t, ht, rfl⟩ _ ⟨t', ht', rfl⟩
    rw [ht] at ht'
    cases ht'
    rfl
  refine ((a.run files).questions.finite_toSet.biUnion fun q _ => hone q.path).subset ?_
  intro b hb
  obtain ⟨p, t, hq, hp, rfl⟩ := calls_iff.1 hb
  exact Set.mem_biUnion hq ⟨t, hp, rfl⟩

theorem finite_reached (files : Files) (a : Call) :
    {d | Relation.ReflTransGen (Calls files) a d}.Finite := by
  refine (((finite_calls files a).biUnion fun b hb => finite_reached files b).insert a).subset ?_
  intro d hd
  rcases hd.cases_head with rfl | ⟨b, hab, hbd⟩
  · exact Set.mem_insert _ _
  · exact Set.mem_insert_of_mem _ (Set.mem_biUnion hab hbd)
termination_by a.context.levelsLeft
decreasing_by exact levelsLeft_lt_of_calls hb

/-! ## What is reached -/

/-- What an expansion that is reached fails with is what the first one fails with. -/
theorem error_of_reached (h : Relation.ReflTransGen (Calls files) a b) {err : ExpandError}
    (herr : (b.run files).result = .error err) : (a.run files).result = .error err := by
  induction h using Relation.ReflTransGen.head_induction_on with
  | refl => exact herr
  | head hcall _ ih =>
    obtain ⟨p, t, hq, hp, rfl⟩ := calls_iff.1 hcall
    exact error_of_question hq hp ih

/-- What an expansion that is reached asks for is asked for by the first one. -/
theorem mem_questions_of_reached (h : Relation.ReflTransGen (Calls files) a b) {q : Question}
    (hq : q ∈ (b.run files).questions) : q ∈ (a.run files).questions := by
  induction h using Relation.ReflTransGen.head_induction_on with
  | refl => exact hq
  | head hcall _ ih =>
    obtain ⟨p, t, hown, hp, rfl⟩ := calls_iff.1 hcall
    obtain ⟨pre, post, hquestions⟩ := questions_of_question hown hp
    rw [hquestions]
    exact List.mem_append_left _ (List.mem_append_right _ (List.mem_cons_of_mem _ ih))

/-- All that is reached goes by the same bindings, search directories and limit. -/
theorem settings_of_reached (h : Relation.ReflTransGen (Calls files) a b) :
    b.context.bindings = a.context.bindings ∧ b.context.searchDirs = a.context.searchDirs ∧
      b.context.maxDepth = a.context.maxDepth := by
  induction h with
  | refl => exact ⟨rfl, rfl, rfl⟩
  | tail _ hcall ih =>
    obtain ⟨p, t, -, -, rfl⟩ := calls_iff.1 hcall
    exact ih

/-- What is expanded is the first text or that of a file that was asked for. -/
theorem given_of_reached (h : Relation.ReflTransGen (Calls files) a b) :
    b = a ∨ ∃ q ∈ (a.run files).questions, b.source = q.path.text ∧ files q.path = .ok b.text := by
  rcases h.cases_tail with rfl | ⟨d, hd, hcall⟩
  · exact .inl rfl
  · obtain ⟨p, t, hq, hp, rfl⟩ := calls_iff.1 hcall
    exact .inr ⟨_, mem_questions_of_reached hd hq, rfl, hp⟩

/-- Whatever is asked is asked by an expansion that is reached, from its own stack. -/
theorem exists_reached_asking (files : Files) (a : Call) {q : Question}
    (hq : q ∈ (a.run files).questions) :
    ∃ b, Relation.ReflTransGen (Calls files) a b ∧ q.stack = b.context.stack ∧
      q ∈ (b.run files).questions := by
  obtain ⟨vs, hvs⟩ := a.run_visits files
  have hmem := hq
  rw [hvs.questions] at hmem
  obtain ⟨p, hp, hmem⟩ := List.mem_flatMap.1 hmem
  cases hfile : files p with
  | error g =>
    rw [Context.run_visit_error hfile] at hmem
    obtain rfl : q = ⟨a.context.stack, p⟩ := by simpa using hmem
    exact ⟨a, .refl, rfl, hq⟩
  | ok t =>
    have hcall : Calls files a (a.included p t) :=
      calls_iff.2 ⟨p, t, hvs.mem_questions hp, hfile, rfl⟩
    rw [Context.run_visit_ok hfile] at hmem
    rcases List.mem_cons.1 hmem with rfl | hmem
    · exact ⟨a, .refl, rfl, hq⟩
    · obtain ⟨b, hb, hasked⟩ := exists_reached_asking files (a.included p t) hmem
      exact ⟨b, hb.head hcall, hasked⟩
termination_by a.context.levelsLeft
decreasing_by exact levelsLeft_lt_of_calls hcall

/-- Whatever is asked is asked from the stack of an expansion that is reached, and what is given is expanded
    by a call of it. -/
theorem exists_reached_of_question (files : Files) (a : Call) {q : Question}
    (hq : q ∈ (a.run files).questions) :
    ∃ b, Relation.ReflTransGen (Calls files) a b ∧ q.stack = b.context.stack ∧
      ∀ t, files q.path = .ok t → Calls files b (b.included q.path t) := by
  obtain ⟨b, hb, hstack, hasked⟩ := exists_reached_asking files a hq
  refine ⟨b, hb, hstack, fun t ht => calls_iff.2 ⟨q.path, t, ?_, ht, rfl⟩⟩
  rw [← hstack]
  exact hasked

/-- An expansion fails as one that is reached fails, of which no file fails that it asks for itself; or because a file
    cannot be read. -/
theorem exists_reached_failing (files : Files) (a : Call) {err : ExpandError}
    (h : (a.run files).result = .error err) :
    (∃ b, Relation.ReflTransGen (Calls files) a b ∧ (b.run files).result = .error err ∧
      ∀ p, ⟨b.context.stack, p⟩ ∈ (b.run files).questions →
        ∀ err', ((b.context.visit Context.expandIncluded p).run files).result ≠ .error err') ∨
    ∃ p g, err = .unreadable p g := by
  by_cases hvisit : ∃ p, ⟨a.context.stack, p⟩ ∈ (a.run files).questions ∧
    ∃ err', ((a.context.visit Context.expandIncluded p).run files).result = .error err'
  · obtain ⟨p, hq, err', herr⟩ := hvisit
    obtain ⟨vs, hvs, hp⟩ := Call.run_visits_of_question hq
    obtain rfl : err = err' := Except.error.inj (h.symm.trans (hvs.fatal p hp err' herr))
    cases hfile : files p with
    | error g => exact .inr ⟨p, g, Context.unreadable_of_run_visit hfile herr⟩
    | ok t =>
      have hcall : Calls files a (a.included p t) := calls_iff.2 ⟨p, t, hq, hfile, rfl⟩
      have hincluded := Context.error_of_run_visit hfile herr
      rcases exists_reached_failing files (a.included p t) hincluded with ⟨b, hb, hfails⟩ | hread
      · exact .inl ⟨b, hb.head hcall, hfails⟩
      · exact .inr hread
  · exact .inl ⟨a, .refl, h, fun p hq err' herr => hvisit ⟨p, hq, err', herr⟩⟩
termination_by a.context.levelsLeft
decreasing_by exact levelsLeft_lt_of_calls hcall

/-- An expansion fails as one that is reached fails in its own text, or because a file cannot be read. -/
theorem exists_reached_of_error (files : Files) (a : Call) {err : ExpandError}
    (h : (a.run files).result = .error err) :
    (∃ b, Relation.ReflTransGen (Calls files) a b ∧ (b.run files).result = .error err ∧
      b.FailsItself files err) ∨ ∃ p g, err = .unreadable p g := by
  refine (exists_reached_failing files a h).imp_left ?_
  rintro ⟨b, hb, herr, hnone⟩
  obtain ⟨vs, hvs⟩ := b.run_visits files
  rcases hvs.failure err herr with ⟨p, hp, err', hvisit, -⟩ | hown
  · exact absurd hvisit (hnone p (hvs.mem_questions hp) err')
  · exact ⟨b, hb, herr, hown⟩

end TextTemplate

import TextTemplate.Proofs.Inclusion.Concatenation
import TextTemplate.Proofs.Inclusion.Stack
import TextTemplate.Proofs.Template.Directives

/-!
# Cycles of includes

An include is refused as recursive where it leads back to a file that is being expanded. What is reported is a chain
of files, put together at the bottom of the recursion and handed up through all that led there: each file in it is
looked for by an include of the file before it, each but the first and the last was read, and only the last is there
twice.

Main results:
* `looksFor_of_question`, `exists_of_recursiveInclude`: what is asked for and what is refused belong to an include.
* `exists_reached_of_source_error`: the expansion in whose own text an error lies.
* `LeadsTo.tail`, `leadsTo_of_reached`: the files on the way to an expansion that is reached.
* `recursiveInclude_genuine`: the chains that are reported.
-/

namespace TextTemplate

/-! ## Specification -/

/-- The text includes a file of that name: the words of one of its directives come to the command and the name. -/
def Call.Includes (files : Files) (a : Call) (file : Text) : Prop :=
  file ≠ [] ∧ ∃ words ∈ directivesOf a.text,
    ((evalWords a.context.meaning words).run files).result = .ok [includeCommand, file]

/-- The text includes a file that is looked for at that path. -/
def Call.LooksFor (files : Files) (a : Call) (p : Path) : Prop :=
  ∃ file, a.Includes files file ∧ p ∈ a.context.candidates ⟨file⟩

/-- The expansion `a` leads to `b` through the files, one including the next. -/
structure LeadsTo (files : Files) (a : Call) (ps : List Path) (b : Call) : Prop where
  /-- By calls. -/
  reached : Relation.ReflTransGen (Calls files) a b
  /-- The files are entered one after the other. -/
  context : b.context = ps.foldl Context.enter a.context
  /-- The last one is expanded under its own name. -/
  source : b.source = (ps.getLast?.map Path.text).getD a.source
  /-- All of them are read. -/
  given : ∀ p ∈ ps, p ∈ (a.run files).reads ∧ ∃ t, files p = .ok t
  /-- Each is looked for where the ones before it have been entered. -/
  lookedFor : ∀ before p after, ps = before ++ p :: after →
    ∃ d, Relation.ReflTransGen (Calls files) a d ∧ d.context = before.foldl Context.enter a.context ∧
      d.LooksFor files p

/-! ## Searches -/

namespace Context

variable {c : Context} {e : Expander} {files : Files}

/-- The search for an include asks from its own stack for candidates only. -/
theorem mem_of_question_includeFirst (he : Upward files e) (hd : c.depth < c.maxDepth) {u file : Text}
    {ps : List Path} {p : Path}
    (hq : ⟨c.stack, p⟩ ∈ ((c.includeFirst e u file ps).run files).questions) : p ∈ ps := by
  induction ps with
  | nil => cases hq
  | cons p' ps ih =>
    by_cases hp : c.OnStack p'
    · rw [includeFirst, if_pos hp] at hq
      cases hq
    · rw [includeFirst_cons hp] at hq
      rcases (Inquiry.isEvent_question files _).bind hq with hvisit | ⟨o, -, hrest⟩
      · have hvs : Visits c e files Failure.elsewhere (fun _ => False) _ [p'] := .visit hp hd
        rw [List.mem_singleton.1 (mem_visits_of_question he hvs hvisit)]
        exact List.mem_cons_self
      · cases o with
        | some t => cases hrest
        | none => exact List.mem_cons_of_mem _ (ih hrest)

/-- A search for an include is refused where it comes to a candidate that is being expanded, or to no file. -/
theorem cause_of_includeFirst {u file : Text} {ps : List Path} {d : Defect}
    (h : ((c.includeFirst e u file ps).run files).result = .error (.here d)) :
    d.cause = .includeNotFound file ∨ ∃ p ∈ ps, c.OnStack p ∧ d.cause = .recursiveInclude (c.stack ++ [p]) := by
  induction ps with
  | nil =>
    cases h
    exact .inl rfl
  | cons p ps ih =>
    by_cases hp : c.OnStack p
    · rw [includeFirst, if_pos hp] at h
      cases h
      exact .inr ⟨p, List.mem_cons_self, hp, rfl⟩
    · rw [includeFirst_cons hp] at h
      rcases (Inquiry.isEvent_failure files _).bind h with hvisit | ⟨o, -, hrest⟩
      · -- a visit fails elsewhere
        obtain ⟨err, -, herr⟩ := Inquiry.run_mapError_eq_error_iff.1 hvisit
        cases herr
      · cases o with
        | some t => cases hrest
        | none =>
          refine (ih hrest).imp_right ?_
          rintro ⟨p', hp', hcause⟩
          exact ⟨p', List.mem_cons_of_mem _ hp', hcause⟩

end Context

/-! ## The includes of a text -/

section Includes

variable {files : Files} {a b : Call}

/-- Whatever is seen of the run of a text, and is no refusal but for a cycle, is seen of the search for one of its
    includes. -/
theorem Call.exists_includes_of_event {E : ∀ {α : Type}, Inquiry Failure α → Prop}
    (hE : Inquiry.IsEvent files E)
    (hrefuse : ∀ u cause, (∀ chain, cause ≠ .recursiveInclude chain) →
      ¬ E (Context.refuse u cause : Inquiry Failure Text))
    (h : E (evalText a.context.meaning a.text)) :
    ∃ file u, a.Includes files file ∧ a.context.depth < a.context.maxDepth ∧
      E (a.context.includeFirst Context.expandIncluded u file (a.context.candidates ⟨file⟩)) := by
  have hreference : ∀ u name, ¬ E (a.context.meaning.reference u name) := by
    intro u name hlook
    change E (a.context.lookUp u name) at hlook
    unfold Context.lookUp at hlook
    split at hlook
    · exact hE.pure _ hlook
    · exact hrefuse u (.undefinedVariable name _) (by simp) hlook
  have hfault : ∀ f : Fault, ¬ E (.fail (.here f.defect) : Inquiry Failure Text) :=
    fun f => hrefuse f.rest (.syntaxError f.error) (by simp)
  obtain ⟨words, hwords, ts, u, hts, hcommand⟩ := evalText_happensAt hE hreference hfault h
  change E (a.context.command (a.context.within Context.expandIncluded) u ts) at hcommand
  rcases Context.command_cases ts with rfl | ⟨cause, hcause, hmisworded⟩ | ⟨file, hfile, rfl⟩
  · exact absurd hcommand (hE.pure _)
  · rw [hmisworded] at hcommand
    refine absurd hcommand (hrefuse u cause fun chain hchain => ?_)
    subst hchain
    cases hcause
  · rw [Context.command_include _ _ u hfile, Context.within] at hcommand
    split_ifs at hcommand with hd
    · exact ⟨file, u, ⟨hfile, words, hwords, hts⟩, hd, hcommand⟩
    · exact absurd hcommand (hrefuse u _ (by simp))

/-- What an expansion asks for from its own stack, it looks for. -/
theorem looksFor_of_question {p : Path} (hq : ⟨a.context.stack, p⟩ ∈ (a.run files).questions) :
    a.LooksFor files p := by
  rw [Call.run, Context.run_expand] at hq
  obtain ⟨file, u, hincludes, hd, hsearch⟩ :=
    Call.exists_includes_of_event (Inquiry.isEvent_question files _) (fun _ _ _ => List.not_mem_nil) hq
  exact ⟨file, hincludes,
    Context.mem_of_question_includeFirst (Context.upward_expandIncluded files) hd hsearch⟩

/-- A text that is refused because of a cycle looks for a file that is being expanded, where another might still be
    entered. -/
theorem exists_of_recursiveInclude {d : Defect} {chain : List Path}
    (hd : d.cause = .recursiveInclude chain)
    (h : ((evalText a.context.meaning a.text).run files).result = .error (.here d)) :
    ∃ p, a.LooksFor files p ∧ a.context.OnStack p ∧ a.context.depth < a.context.maxDepth ∧
      chain = a.context.stack ++ [p] := by
  have hrefuse : ∀ u cause, (∀ chain, cause ≠ .recursiveInclude chain) →
      ¬ ((Context.refuse u cause : Inquiry Failure Text).run files).result = .error (.here d) := by
    intro u cause hcause hfail
    cases hfail
    exact hcause chain hd
  obtain ⟨file, u, hincludes, hdepth, hsearch⟩ :=
    Call.exists_includes_of_event (Inquiry.isEvent_failure files _) hrefuse h
  rcases Context.cause_of_includeFirst hsearch with hcause | ⟨p, hp, hstack, hcause⟩
  · rw [hd] at hcause
    cases hcause
  · rw [hd] at hcause
    exact ⟨p, ⟨file, hincludes, hp⟩, hstack, hdepth, Cause.recursiveInclude.inj hcause⟩

/-! ## The way to an error -/

/-- An error in a source is one in the own text of an expansion that is reached. -/
theorem exists_reached_of_source_error (files : Files) (a : Call) {e : SourceError}
    (h : (a.run files).result = .error (.source e)) :
    ∃ b d, Relation.ReflTransGen (Calls files) a b ∧
      ((evalText b.context.meaning b.text).run files).result = .error (.here d) ∧
      e = d.inSource b.source b.text := by
  rcases exists_reached_failing files a h with ⟨b, hb, herr, hnone⟩ | ⟨p, g, hread⟩
  · obtain ⟨f, hf, hsource⟩ := Context.expand_eq_error_iff.1 herr
    cases f with
    | here d =>
      cases hsource
      exact ⟨b, d, hb, hf, rfl⟩
    | elsewhere err =>
      obtain ⟨p, hq, hvisit⟩ := Context.handsOn_of_elsewhere b.source hf
      exact absurd hvisit (hnone p hq err)
  · cases hread

/-- A place in a list with one more element is at that element or in the list. -/
theorem split_concat {α : Type} {xs before after : List α} {x y : α}
    (h : xs ++ [x] = before ++ y :: after) :
    (before = xs ∧ y = x) ∨ ∃ after', xs = before ++ y :: after' := by
  rcases List.eq_nil_or_concat after with rfl | ⟨after, z, rfl⟩
  · obtain ⟨rfl, hlast⟩ := List.append_inj' h rfl
    cases hlast
    exact .inl ⟨rfl, rfl⟩
  · rw [List.concat_eq_append, ← List.cons_append, ← List.append_assoc] at h
    obtain ⟨rfl, -⟩ := List.append_inj' h rfl
    exact .inr ⟨after, rfl⟩

theorem leadsTo_refl (files : Files) (a : Call) : LeadsTo files a [] a where
  reached := .refl
  context := rfl
  source := rfl
  given := by simp
  lookedFor := by simp

/-- A call goes one file further. -/
theorem LeadsTo.tail {ps : List Path} {c : Call} (h : LeadsTo files a ps b) (hbc : Calls files b c) :
    ∃ p, LeadsTo files a (ps ++ [p]) c := by
  have hreached := h.reached.tail hbc
  obtain ⟨p, t, hq, hp, rfl⟩ := calls_iff.1 hbc
  refine ⟨p, hreached, ?_, ?_, ?_, ?_⟩
  · rw [List.foldl_append, ← h.context]
    rfl
  · rw [List.getLast?_concat]
    rfl
  · intro q hq'
    rcases List.mem_append.1 hq' with hq' | hq'
    · exact h.given q hq'
    · cases List.mem_singleton.1 hq'
      exact ⟨List.mem_map.2 ⟨_, mem_questions_of_reached h.reached hq, rfl⟩, t, hp⟩
  · intro before q after hsplit
    rcases split_concat hsplit with ⟨rfl, rfl⟩ | ⟨after, rfl⟩
    · exact ⟨b, h.reached, h.context, looksFor_of_question hq⟩
    · exact h.lookedFor before q after rfl

/-- What is reached is led to through some files. -/
theorem leadsTo_of_reached (h : Relation.ReflTransGen (Calls files) a b) : ∃ ps, LeadsTo files a ps b := by
  induction h with
  | refl => exact ⟨[], leadsTo_refl files a⟩
  | tail _ hcall ih =>
    obtain ⟨ps, hps⟩ := ih
    obtain ⟨p, hp⟩ := hps.tail hcall
    exact ⟨_, hp⟩

theorem Distinct.eq_of_same {ps : List Path} (h : Distinct ps) {p q : Path} (hp : p ∈ ps) (hq : q ∈ ps)
    (hsame : p.Same q) : p = q := by
  have hsymm : Std.Symm fun p q : Path => ¬ p.Same q := ⟨fun _ _ hnot hsame => hnot hsame.symm⟩
  by_contra hne
  exact List.Pairwise.forall h hp hq hne hsame

theorem stack_foldl_enter (c : Context) (ps : List Path) :
    (ps.foldl Context.enter c).stack = c.stack ++ ps := by
  induction ps generalizing c with
  | nil => rw [List.append_nil]; rfl
  | cons p ps ih => rw [List.foldl_cons, ih, Context.stack_enter, List.append_assoc]; rfl

end Includes

/-! ## Main theorem -/

/-- Where an expansion fails because of a cycle of includes, starting with the file `root`, the chain that it reports
    is one of files that were included. It starts with the root and has one more file at least; without the last file
    no path is in it twice, and the last is the same path as just one before it. Every file behind the root is looked
    for by an include of an expansion in which those before it are open, and those between the root and the last were
    read. The chain is no longer than the number of files that may be open, and the error lies in the file before the
    last. -/
theorem recursiveInclude_genuine {files : Files} {bindings : Bindings} {searchDirs : List Path}
    {maxDepth : Nat} {root : Path} {source text : Text} {e : SourceError} {chain : List Path}
    (h : ((Call.ofRoot bindings searchDirs maxDepth root source text).run files).result = .error (.source e))
    (hcause : e.cause = .recursiveInclude chain) :
    let a := Call.ofRoot bindings searchDirs maxDepth root source text
    ∃ ps p, chain = root :: ps ++ [p] ∧ Distinct (root :: ps) ∧
      (∃! q, q ∈ root :: ps ∧ q.Same p) ∧
      (∀ before q after, ps ++ [p] = before ++ q :: after →
        ∃ b, Relation.ReflTransGen (Calls files) a b ∧ b.context = before.foldl Context.enter a.context ∧
          b.context.stack = root :: before ∧ b.LooksFor files q) ∧
      (∀ q ∈ ps, q ∈ (a.run files).reads ∧ ∃ t, files q = .ok t) ∧
      chain.length ≤ maxDepth ∧
      e.location.source = (ps.getLast?.map Path.text).getD source := by
  intro a
  obtain ⟨b, d, hb, hfails, rfl⟩ := exists_reached_of_source_error files a h
  obtain ⟨p, hlooks, hopen, hdepth, rfl⟩ := exists_of_recursiveInclude hcause hfails
  obtain ⟨ps, hps⟩ := leadsTo_of_reached hb
  have hwell := wellStacked_of_reached (wellStacked_ofRoot files bindings searchDirs maxDepth root) hb
  have hstack : ∀ before : List Path, (before.foldl Context.enter a.context).stack = root :: before :=
    fun before => stack_foldl_enter a.context before
  have hchain : b.context.stack = root :: ps := by rw [hps.context, hstack]
  have hdistinct := hwell.distinct
  rw [hchain] at hdistinct
  refine ⟨ps, p, by rw [hchain], hdistinct, ?_, ?_, hps.given, ?_, hps.source⟩
  · obtain ⟨q, hq, hsame⟩ := hopen
    rw [hchain] at hq
    refine ⟨q, ⟨hq, hsame⟩, ?_⟩
    rintro r ⟨hr, hr'⟩
    exact hdistinct.eq_of_same hr hq (hr'.trans hsame.symm)
  · intro before q after hsplit
    rcases split_concat hsplit with ⟨rfl, rfl⟩ | ⟨after, rfl⟩
    · exact ⟨b, hb, hps.context, hchain, hlooks⟩
    · obtain ⟨c, hc, hcontext, hlooks⟩ := hps.lookedFor before q after rfl
      exact ⟨c, hc, hcontext, by rw [hcontext, hstack], hlooks⟩
  · rw [hwell.limit] at hdepth
    rw [List.length_append, List.length_singleton]
    exact hdepth

/-- A cycle of two files, closed by another spelling of the first. -/
theorem recursiveInclude_genuine_dotted :
    let a := Call.ofRoot .empty [] 9 ⟨"/d/r".toList⟩ "r".toList "$(include-file f)".toList
    let files := (FileTable.ofList [(⟨"/d/f".toList⟩, .ok "$(include-file ./r)".toList)]).read
    (a.run files).result = .error (.source ⟨⟨"/d/f".toList, ⟨1, 1⟩⟩,
      .recursiveInclude [⟨"/d/r".toList⟩, ⟨"/d/f".toList⟩, ⟨"/d/./r".toList⟩]⟩) ∧
    ∃ b, Relation.ReflTransGen (Calls files) a b ∧
      b.context.stack = [⟨"/d/r".toList⟩, ⟨"/d/f".toList⟩] ∧ b.LooksFor files ⟨"/d/./r".toList⟩ := by
  have hrun : ((Call.ofRoot .empty [] 9 ⟨"/d/r".toList⟩ "r".toList "$(include-file f)".toList).run
      (FileTable.ofList [(⟨"/d/f".toList⟩, .ok "$(include-file ./r)".toList)]).read).result =
        .error (.source ⟨⟨"/d/f".toList, ⟨1, 1⟩⟩,
          .recursiveInclude [⟨"/d/r".toList⟩, ⟨"/d/f".toList⟩, ⟨"/d/./r".toList⟩]⟩) := by
    decide +kernel
  intro a files
  obtain ⟨ps, p, hchain, -, -, hlooked, -⟩ := recursiveInclude_genuine hrun rfl
  obtain ⟨-, hps⟩ := List.cons.inj hchain
  obtain ⟨b, hb, -, hstack, hlooks⟩ := hlooked [⟨"/d/f".toList⟩] ⟨"/d/./r".toList⟩ [] hps.symm
  exact ⟨hrun, b, hb, hstack, hlooks⟩

end TextTemplate

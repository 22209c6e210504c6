import Mathlib.Data.List.Forall2
import TextTemplate.Proofs.Inclusion.Pasting

/-!
# Other spellings of the same paths

Joining and taking the parent work on the text of a path, while cycles are found by components. Where the paths that
a context is made of are spelled in another way, every path that comes up in an expansion is again another spelling:
the same is looked for in the same order, refused for the same reasons and produced in the end.

Main results:
* `Context.Respelled.enter`, `Context.Respelled.candidates`, `Context.Respelled.onStack_iff`: contexts in another
  spelling, step by step.
* `Context.evalText_respelled`: the runs of a text, with all that it includes.
* `Context.expansion_respelled`: expansions in another spelling.
-/

namespace TextTemplate

/-! ## Specification -/

/-- The files answer all spellings of a path alike: with the same text, or with failures of the same kind. -/
def Files.AnswersAlike (files : Files) : Prop :=
  ∀ p q, p.Same q → (files p).mapError ReadFailure.kind = (files q).mapError ReadFailure.kind

theorem Files.RespectsSame.answersAlike {files : Files} (h : files.RespectsSame) : files.AnswersAlike :=
  fun p q hpq => congrArg _ (h p q hpq)

/-- The second cause is the first, with its paths in another spelling. -/
inductive Cause.Respelled : Cause → Cause → Prop
  | same (cause : Cause) : Cause.Respelled cause cause
  | recursiveInclude {ps qs : List Path} : List.Forall₂ Path.Same ps qs →
      Cause.Respelled (.recursiveInclude ps) (.recursiveInclude qs)

/-- The second error is the first, with its paths in another spelling: it lies at the same position of the same file,
    or the same file cannot be read for the same reason. -/
inductive ExpandError.Respelled : ExpandError → ExpandError → Prop
  | source {p q : Path} {position : Position} {cause cause' : Cause} : p.Same q →
      cause.Respelled cause' →
      ExpandError.Respelled (.source ⟨⟨p.text, position⟩, cause⟩) (.source ⟨⟨q.text, position⟩, cause'⟩)
  | unreadable {p q : Path} {g g' : ReadFailure} : p.Same q → g.kind = g'.kind →
      ExpandError.Respelled (.unreadable p g) (.unreadable q g')

/-- The second context is the first, with its paths in another spelling. -/
structure Context.Respelled (c c' : Context) : Prop where
  /-- The bindings are the same. -/
  bindings : c'.bindings = c.bindings
  /-- The limit is the same. -/
  maxDepth : c'.maxDepth = c.maxDepth
  /-- The same files are open. -/
  stack : List.Forall₂ Path.Same c.stack c'.stack
  /-- The same directories are searched. -/
  searchDirs : List.Forall₂ Path.Same c.searchDirs c'.searchDirs

/-! ## Runs in another spelling -/

/-- The second failure is the first, with its paths in another spelling; in the text itself it has the same place. -/
inductive Failure.Respelled : Failure → Failure → Prop
  | here {u : Text} {cause cause' : Cause} : cause.Respelled cause' →
      Failure.Respelled (.here ⟨u, cause⟩) (.here ⟨u, cause'⟩)
  | elsewhere {err err' : ExpandError} : err.Respelled err' →
      Failure.Respelled (.elsewhere err) (.elsewhere err')

namespace Inquiry

variable {ε δ α β : Type} {E : ε → ε → Prop} {files : Files}

/-- Two runs end with the same result, or with errors that `E` relates. -/
inductive EndsAlike (E : ε → ε → Prop) : Except ε α → Except ε α → Prop
  | ok (a : α) : EndsAlike E (.ok a) (.ok a)
  | error {e e' : ε} : E e e' → EndsAlike E (.error e) (.error e')

/-- The second run asks for the paths of the first in another spelling, and ends as it does. -/
structure Run.Respelled (E : ε → ε → Prop) (r r' : Run ε α) : Prop where
  /-- The paths that are asked for. -/
  reads : List.Forall₂ Path.Same r.reads r'.reads
  /-- The ends. -/
  result : EndsAlike E r.result r'.result

theorem respelled_pure (a : α) :
    ((Inquiry.pure a : Inquiry ε α).run files).Respelled E ((Inquiry.pure a : Inquiry ε α).run files) :=
  ⟨.nil, .ok a⟩

theorem respelled_fail {e e' : ε} (h : E e e') :
    ((Inquiry.fail e : Inquiry ε α).run files).Respelled E ((Inquiry.fail e' : Inquiry ε α).run files) :=
  ⟨.nil, .error h⟩

theorem respelled_bind {x y : Inquiry ε α} {f g : α → Inquiry ε β}
    (hx : (x.run files).Respelled E (y.run files))
    (hf : ∀ a, ((f a).run files).Respelled E ((g a).run files)) :
    ((x.bind f).run files).Respelled E ((y.bind g).run files) := by
  obtain ⟨hreads, hresult⟩ := hx
  rw [run_bind, run_bind]
  generalize (x.run files).result = r, (y.run files).result = r' at hresult
  cases hresult with
  | ok a =>
    refine ⟨?_, (hf a).result⟩
    rw [Run.reads, Run.reads, List.map_append, List.map_append]
    exact List.rel_append hreads (hf a).reads
  | error he => exact ⟨hreads, .error he⟩

theorem respelled_compositional (files : Files) (E : ε → ε → Prop) :
    Compositional fun x y => (x.run files).Respelled E (y.run files) where
  pure := respelled_pure
  bind := respelled_bind

theorem respelled_mapError {D : δ → δ → Prop} {x y : Inquiry ε α} {g g' : ε → δ}
    (hg : ∀ e e', E e e' → D (g e) (g' e')) (h : (x.run files).Respelled E (y.run files)) :
    ((x.mapError g).run files).Respelled D ((y.mapError g').run files) := by
  obtain ⟨hreads, hresult⟩ := h
  rw [run_mapError, run_mapError]
  generalize (x.run files).result = r, (y.run files).result = r' at hresult
  cases hresult with
  | ok a => exact ⟨hreads, .ok a⟩
  | error he => exact ⟨hreads, .error (hg _ _ he)⟩

end Inquiry

/-! ## Contexts step by step -/

theorem exists_same_iff {ps qs : List Path} (h : List.Forall₂ Path.Same ps qs) {p q : Path}
    (hpq : p.Same q) : (∃ r ∈ ps, r.Same p) ↔ ∃ r ∈ qs, r.Same q := by
  induction h with
  | nil => simp
  | cons hr _ ih =>
    rename_i r s _ _ _
    have hhead : r.Same p ↔ s.Same q :=
      ⟨fun h => (hr.symm.trans h).trans hpq, fun h => (hr.trans h).trans hpq.symm⟩
    simp only [List.mem_cons, exists_eq_or_imp, ih, hhead]

namespace Context

variable {c c' : Context} {files : Files} {e e' : Expander}

namespace Respelled

theorem depth_eq (h : c.Respelled c') : c'.depth = c.depth := h.stack.length_eq.symm

theorem current (h : c.Respelled c') : c.current.Same c'.current := by
  have hrev := List.forall₂_reverse_iff.2 h.stack
  rw [Context.stack, Context.stack, List.reverse_append, List.reverse_append] at hrev
  exact (List.forall₂_cons.1 hrev).1

theorem enter (h : c.Respelled c') {p q : Path} (hpq : p.Same q) :
    (c.enter p).Respelled (c'.enter q) where
  bindings := h.bindings
  maxDepth := h.maxDepth
  stack := List.rel_append h.stack (.cons hpq .nil)
  searchDirs := h.searchDirs

theorem onStack_iff (h : c.Respelled c') {p q : Path} (hpq : p.Same q) :
    c.OnStack p ↔ c'.OnStack q := exists_same_iff h.stack hpq

/-- An include is looked for at the same paths. -/
theorem candidates (h : c.Respelled c') (file : Path) :
    List.Forall₂ Path.Same (c.candidates file) (c'.candidates file) := by
  refine .cons (h.current.parent.join file) ?_
  rw [List.forall₂_map_left_iff, List.forall₂_map_right_iff]
  exact h.searchDirs.imp fun _ _ hdir => hdir.join file

end Respelled

/-! ## References and directives -/

theorem lookUp_respelled (h : c.Respelled c') (u name : Text) :
    ((c.lookUp u name).run files).Respelled Failure.Respelled ((c'.lookUp u name).run files) := by
  rw [lookUp, lookUp, h.bindings]
  split
  · exact Inquiry.respelled_pure _
  · exact Inquiry.respelled_fail (.here (.same _))

theorem visit_respelled (hfiles : files.AnswersAlike) {p q : Path} (hpq : p.Same q)
    (he : ∀ t, ((e (c.enter p) t).run files).Respelled ExpandError.Respelled ((e' (c'.enter q) t).run files)) :
    ((c.visit e p).run files).Respelled ExpandError.Respelled ((c'.visit e' q).run files) := by
  have hanswer := hfiles p q hpq
  cases hp : files p with
  | ok t =>
    cases hq : files q with
    | error g => rw [hp, hq] at hanswer; cases hanswer
    | ok t' =>
      rw [hp, hq] at hanswer
      cases hanswer
      have hrun := Inquiry.respelled_bind (he t) fun u => Inquiry.respelled_pure (some u)
      rw [visit, visit, Inquiry.run_ask, Inquiry.run_ask]
      simp only [hp, hq]
      exact ⟨.cons hpq hrun.reads, hrun.result⟩
  | error g =>
    cases hq : files q with
    | ok t => rw [hp, hq] at hanswer; cases hanswer
    | error g' =>
      have hkind : g.kind = g'.kind := by
        rw [hp, hq] at hanswer
        exact Except.error.inj hanswer
      rw [run_visit_error hp, run_visit_error hq, ← hkind]
      refine ⟨.cons hpq .nil, ?_⟩
      split_ifs
      · exact .ok none
      · exact .error (.unreadable hpq hkind)

theorem includeFirst_respelled (h : c.Respelled c') (hfiles : files.AnswersAlike)
    (he : ∀ p q, p.Same q → ∀ t,
      ((e (c.enter p) t).run files).Respelled ExpandError.Respelled ((e' (c'.enter q) t).run files))
    (u file : Text) {ps qs : List Path} (hps : List.Forall₂ Path.Same ps qs) :
    ((c.includeFirst e u file ps).run files).Respelled Failure.Respelled
      ((c'.includeFirst e' u file qs).run files) := by
  induction hps with
  | nil => exact Inquiry.respelled_fail (.here (.same _))
  | cons hpq _ ih =>
    rename_i p q ps qs _
    by_cases hp : c.OnStack p
    · rw [includeFirst, if_pos hp, includeFirst, if_pos ((h.onStack_iff hpq).1 hp)]
      exact Inquiry.respelled_fail
        (.here (.recursiveInclude (List.rel_append h.stack (.cons hpq .nil))))
    · rw [includeFirst_cons hp, includeFirst_cons (mt (h.onStack_iff hpq).2 hp)]
      have hvisit : (((c.visit e p).mapError Failure.elsewhere).run files).Respelled Failure.Respelled
          (((c'.visit e' q).mapError Failure.elsewhere).run files) :=
        Inquiry.respelled_mapError (fun _ _ => .elsewhere) (visit_respelled hfiles hpq (he p q hpq))
      refine Inquiry.respelled_bind hvisit ?_
      rintro (_ | t)
      · exact ih
      · exact Inquiry.respelled_pure t

theorem command_respelled (h : c.Respelled c') (hfiles : files.AnswersAlike)
    (he : c.depth < c.maxDepth → ∀ p q, p.Same q → ∀ t,
      ((e (c.enter p) t).run files).Respelled ExpandError.Respelled ((e' (c'.enter q) t).run files))
    (u : Text) (words : List Text) :
    ((c.command (c.within e) u words).run files).Respelled Failure.Respelled
      ((c'.command (c'.within e') u words).run files) := by
  rcases command_cases words with rfl | ⟨cause, -, hrefuse⟩ | ⟨file, hfile, rfl⟩
  · exact Inquiry.respelled_pure []
  · rw [hrefuse, hrefuse]
    exact Inquiry.respelled_fail (.here (.same cause))
  · rw [command_include c _ u hfile, command_include c' _ u hfile, within, within, h.depth_eq, h.maxDepth]
    split_ifs with hd
    · exact includeFirst_respelled h hfiles (he hd) u file (h.candidates ⟨file⟩)
    · exact Inquiry.respelled_fail (.here (.same _))

end Context

/-- A failure of an included file names the file as it is spelled. -/
theorem Failure.Respelled.inSource {p q : Path} (hpq : p.Same q) (whole : Text) {f f' : Failure}
    (h : f.Respelled f') : (f.inSource p.text whole).Respelled (f'.inSource q.text whole) := by
  cases h with
  | here hcause => exact .source hpq hcause
  | elsewhere herr => exact herr

namespace Context

/-! ## Expansions -/

/-- A text is evaluated in step in another spelling of its context, with all that it includes. -/
theorem evalText_respelled {c c' : Context} (h : c.Respelled c') {files : Files}
    (hfiles : files.AnswersAlike) (s : Text) :
    ((evalText c.meaning s).run files).Respelled Failure.Respelled ((evalText c'.meaning s).run files) := by
  have hincluded : c.depth < c.maxDepth → ∀ p q, p.Same q → ∀ t,
      ((expandIncluded (c.enter p) t).run files).Respelled ExpandError.Respelled
        ((expandIncluded (c'.enter q) t).run files) := by
    intro hd p q hpq t
    have ih := evalText_respelled (h.enter hpq) hfiles t
    rw [expandIncluded, expandIncluded, expand_eq_eval, expand_eq_eval]
    exact Inquiry.respelled_mapError (fun _ _ hf => hf.inSource hpq t) ih
  have hmeaning : c.meaning.Related
      (fun x y => (x.run files).Respelled Failure.Respelled (y.run files)) (fun _ => True) c'.meaning :=
    ⟨fun u _ name => lookUp_respelled h u name,
      fun u _ words => command_respelled h hfiles hincluded u words⟩
  exact evalText_related (Inquiry.respelled_compositional files _) hmeaning s (fun _ _ => trivial)
    fun _ _ => Inquiry.respelled_fail (.here (.same _))
termination_by c.levelsLeft
decreasing_by exact levelsLeft_enter_lt hd p

/-! ## Main theorem -/

/-- Where the paths of a context are spelled in another way, and the files answer all spellings alike, an expansion
    asks for the same paths and ends in the same way: with the same text; or with an error in the text itself, at the
    same position and for the same cause; or with the error of a file that it included, which is the same file in
    both. -/
theorem expansion_respelled {c c' : Context} (h : c.Respelled c') {files : Files}
    (hfiles : files.AnswersAlike) (source source' s : Text) :
    let r := (c.expand source s).run files
    let r' := (c'.expand source' s).run files
    List.Forall₂ Path.Same r.reads r'.reads ∧
    ((∃ o, r.result = .ok o ∧ r'.result = .ok o) ∨
      (∃ position cause cause', Cause.Respelled cause cause' ∧
        r.result = .error (.source ⟨⟨source, position⟩, cause⟩) ∧
        r'.result = .error (.source ⟨⟨source', position⟩, cause'⟩) ∧
        ∀ err, ¬ c.HandsOn files source s err ∧ ¬ c'.HandsOn files source' s err) ∨
      ∃ err err', ExpandError.Respelled err err' ∧ r.result = .error err ∧ r'.result = .error err' ∧
        c.HandsOn files source s err ∧ c'.HandsOn files source' s err') := by
  intro r r'
  obtain ⟨hreads, hresult⟩ := evalText_respelled h hfiles s
  have hr : r = _ := run_expand c files source s
  have hr' : r' = _ := run_expand c' files source' s
  rw [hr, hr']
  refine ⟨hreads, ?_⟩
  cases hf : ((evalText c.meaning s).run files).result with
  | ok o =>
    rw [hf] at hresult
    generalize ((evalText c'.meaning s).run files).result = end' at hresult
    cases hresult
    exact .inl ⟨o, rfl, rfl⟩
  | error f =>
    cases hf' : ((evalText c'.meaning s).run files).result with
    | ok o => rw [hf, hf'] at hresult; cases hresult
    | error f' =>
      rw [hf, hf'] at hresult
      cases hresult with
      | error hrel =>
        right
        cases hrel with
        | here hcause =>
          refine .inl ⟨_, _, _, hcause, rfl, rfl, fun err => ⟨?_, ?_⟩⟩
          · exact not_handsOn_of_here source hf err
          · exact not_handsOn_of_here source' hf' err
        | elsewhere herr =>
          refine .inr ⟨_, _, herr, rfl, rfl, ?_, ?_⟩
          · exact handsOn_of_elsewhere source hf
          · exact handsOn_of_elsewhere source' hf'

/-- A cycle, where the root is spelled in another way: so are the chain and the file that closes it. -/
theorem expansion_respelled_dotted :
    Respelled ⟨.empty, [⟨"e/".toList⟩], 9, [], ⟨"/d/r".toList⟩⟩
      ⟨.empty, [⟨"e/.".toList⟩], 9, [], ⟨"/.//d/r/".toList⟩⟩ ∧
    ((expand ⟨.empty, [⟨"e/".toList⟩], 9, [], ⟨"/d/r".toList⟩⟩ "r".toList "$(include-file f)".toList).run
      (FileTable.ofList [(⟨"/d/f".toList⟩, .ok "$(include-file ./r)".toList)]).read).result =
        .error (.source ⟨⟨"/d/f".toList, ⟨1, 1⟩⟩,
          .recursiveInclude [⟨"/d/r".toList⟩, ⟨"/d/f".toList⟩, ⟨"/d/./r".toList⟩]⟩) ∧
    ∃ err, ExpandError.Respelled (.source ⟨⟨"/d/f".toList, ⟨1, 1⟩⟩,
        .recursiveInclude [⟨"/d/r".toList⟩, ⟨"/d/f".toList⟩, ⟨"/d/./r".toList⟩]⟩) err ∧
      ((expand ⟨.empty, [⟨"e/.".toList⟩], 9, [], ⟨"/.//d/r/".toList⟩⟩ "r".toList
        "$(include-file f)".toList).run
          (FileTable.ofList [(⟨"/d/f".toList⟩, .ok "$(include-file ./r)".toList)]).read).result =
            .error err := by
  obtain ⟨files, hfiles⟩ : ∃ files, files =
    (FileTable.ofList [(⟨"/d/f".toList⟩, .ok "$(include-file ./r)".toList)]).read := ⟨_, rfl⟩
  have halike : files.AnswersAlike := hfiles ▸ (FileTable.read_respectsSame _).answersAlike
  have hrespelled : Respelled ⟨.empty, [⟨"e/".toList⟩], 9, [], ⟨"/d/r".toList⟩⟩
      ⟨.empty, [⟨"e/.".toList⟩], 9, [], ⟨"/.//d/r/".toList⟩⟩ :=
    ⟨rfl, rfl, .cons (by decide) .nil, .cons (by decide) .nil⟩
  have hrun : ((expand ⟨.empty, [⟨"e/".toList⟩], 9, [], ⟨"/d/r".toList⟩⟩ "r".toList
      "$(include-file f)".toList).run files).result =
        .error (.source ⟨⟨"/d/f".toList, ⟨1, 1⟩⟩,
          .recursiveInclude [⟨"/d/r".toList⟩, ⟨"/d/f".toList⟩, ⟨"/d/./r".toList⟩]⟩) := by
    rw [hfiles]
    decide +kernel
  rw [← hfiles]
  refine ⟨hrespelled, hrun, ?_⟩
  obtain ⟨-, ⟨o, ho, -⟩ | ⟨position, cause, cause', -, hhere, -⟩ | ⟨err, err', hrel, herr, herr', -⟩⟩ :=
    expansion_respelled hrespelled halike "r".toList "r".toList "$(include-file f)".toList
  · cases hrun.symm.trans ho
  · -- the cycle lies in the included file, not in the text itself
    have hsource := hrun.symm.trans hhere
    simp at hsource
  · cases hrun.symm.trans herr
    exact ⟨err', hrel, herr'⟩

end Context

end TextTemplate

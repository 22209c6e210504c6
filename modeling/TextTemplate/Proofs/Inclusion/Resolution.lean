import TextTemplate.Files.Memory
import TextTemplate.Proofs.Inclusion.Visits

/-!
# Where an include is found

The candidates of an include are gone through in order, and the first one that settles the search ends it: a path
that is being expanded, or one where reading says anything else than that there is no such file. What lies behind it is
never asked for, whatever comes of the candidate.

Main results:
* `Context.run_includeFirst_unsettled`: the search behind candidates that settle nothing.
* `Context.run_includeFirst_open`, `Context.run_includeFirst_unreadable`, `Context.run_includeFirst_given`: its end at a
  candidate that does.
* `Context.include_first_match`: what an include stands for, in a context and with the files as they are.
-/

namespace TextTemplate.Context

/-! ## Specification -/

/-- The search for an include ends at a path: it is being expanded, or there is something to be read. -/
def Settles (c : Context) (files : Files) (p : Path) : Prop :=
  c.OnStack p ∨ ∀ g, files p = .error g → g.kind ≠ .notFound

/-- The questions for candidates, one after the other. -/
def questionsFor (c : Context) (ps : List Path) : List Question := ps.map (⟨c.stack, ·⟩)

/-- The error of a reference or directive that starts there, in the text `whole` of the source of that name. -/
def refusal (source whole start : Text) (cause : Cause) : ExpandError :=
  .source ⟨⟨source, .before whole start⟩, cause⟩

/-! ## The search -/

section Search

variable {c : Context} {e : Expander} {files : Files} {u file : Text} {p : Path} {ps : List Path}

theorem not_settles_iff :
    ¬ c.Settles files p ↔ ¬ c.OnStack p ∧ ∃ g, files p = .error g ∧ g.kind = .notFound := by
  simp [Settles]

theorem questionsFor_concat (c : Context) (ps : List Path) (p : Path) :
    c.questionsFor (ps ++ [p]) = c.questionsFor ps ++ [⟨c.stack, p⟩] := List.map_append

/-- Candidates that settle nothing are asked for, and the search goes on behind them. -/
theorem run_includeFirst_unsettled {before : List Path} (h : ∀ q ∈ before, ¬ c.Settles files q)
    (e : Expander) (u file : Text) (ps : List Path) :
    (c.includeFirst e u file (before ++ ps)).run files =
      ⟨c.questionsFor before ++ ((c.includeFirst e u file ps).run files).questions,
        ((c.includeFirst e u file ps).run files).result⟩ := by
  induction before with
  | nil => rfl
  | cons q before ih =>
    rw [List.forall_mem_cons] at h
    obtain ⟨hopen, g, hg, hkind⟩ := not_settles_iff.1 h.1
    have hmiss : (c.includeFirst e u file (q :: (before ++ ps))).run files =
        ⟨⟨c.stack, q⟩ :: ((c.includeFirst e u file (before ++ ps)).run files).questions,
          ((c.includeFirst e u file (before ++ ps)).run files).result⟩ := by
      rw [includeFirst, if_neg hopen, Inquiry.run_ask]
      simp only [hg, if_pos hkind]
    rw [List.cons_append, hmiss, ih h.2]
    rfl

theorem run_includeFirst_open (h : c.OnStack p) :
    (c.includeFirst e u file (p :: ps)).run files =
      ⟨[], .error (.here ⟨u, .recursiveInclude (c.stack ++ [p])⟩)⟩ := by
  rw [includeFirst, if_pos h]
  rfl

theorem run_includeFirst_unreadable (h : ¬ c.OnStack p) {g : ReadFailure} (hp : files p = .error g)
    (hg : g.kind ≠ .notFound) :
    (c.includeFirst e u file (p :: ps)).run files =
      ⟨[⟨c.stack, p⟩], .error (.elsewhere (.unreadable p g))⟩ := by
  rw [includeFirst, if_neg h, Inquiry.run_ask]
  simp only [hp, if_neg hg]
  rfl

theorem run_includeFirst_given (h : ¬ c.OnStack p) {t : Text} (hp : files p = .ok t) :
    (c.includeFirst e u file (p :: ps)).run files =
      ⟨⟨c.stack, p⟩ :: ((e (c.enter p) t).run files).questions,
        ((e (c.enter p) t).run files).result.mapError .elsewhere⟩ := by
  rw [includeFirst, if_neg h, Inquiry.run_ask]
  simp only [hp, Inquiry.run_mapError]

end Search

/-! ## Includes -/

section Include

variable {c : Context} {file : Text}

theorem command_expanderWithin (c : Context) (start : Text) (words : List Text) :
    c.command (expanderWithin c.levelsLeft) start words = c.command (c.within expandIncluded) start words := by
  have hmeaning : c.command (expanderWithin c.levelsLeft) = c.command (c.within expandIncluded) :=
    congrArg Semantics.directive c.semantics_expanderWithin
  rw [hmeaning]

theorem include_of_full (hfile : file ≠ []) (hd : c.maxDepth ≤ c.depth) (start : Text) :
    c.command (expanderWithin c.levelsLeft) start [includeCommand, file] =
      refuse start (.depthExceeded c.maxDepth) := by
  rw [command_expanderWithin, command_include c _ start hfile, within, if_neg (Nat.not_lt_of_le hd)]

theorem include_of_room (hfile : file ≠ []) (hd : c.depth < c.maxDepth) (start : Text) :
    c.command (expanderWithin c.levelsLeft) start [includeCommand, file] =
      c.includeFirst expandIncluded start file (c.candidates ⟨file⟩) := by
  rw [command_expanderWithin, command_include c _ start hfile, within, if_pos hd]

end Include

/-! ## Main theorem -/

/-- What an include of a file stands for. Where as many files as allowed are open, it is refused and nothing is asked
for. Else its candidates are asked for in order, beside the current file and then in each search directory, up to the
first that settles the search. Without one the include is refused when all have been asked for; where that one is
being expanded, it is refused as recursive and that one is not asked for; where it cannot be read, the expansion fails
because of that; and where it can, the include stands for its text, expanded under its name with it on the stack,
also if that fails. -/
theorem include_first_match (c : Context) (files : Files) (source whole start : Text) {file : Text}
    (hfile : file ≠ []) :
    let r := ((c.command (expanderWithin c.levelsLeft) start [includeCommand, file]).mapError
      (Failure.inSource source whole)).run files
    let ps := c.current.parent.join ⟨file⟩ :: c.searchDirs.map (·.join ⟨file⟩)
    (c.maxDepth ≤ c.depth → r = ⟨[], .error (refusal source whole start (.depthExceeded c.maxDepth))⟩) ∧
    (c.depth < c.maxDepth →
      ((∀ p ∈ ps, ¬ c.Settles files p) →
        r = ⟨c.questionsFor ps, .error (refusal source whole start (.includeNotFound file))⟩) ∧
      ∀ before p after, ps = before ++ p :: after → (∀ q ∈ before, ¬ c.Settles files q) →
        c.Settles files p →
        (c.OnStack p → r = ⟨c.questionsFor before,
          .error (refusal source whole start (.recursiveInclude (c.stack ++ [p])))⟩) ∧
        (¬ c.OnStack p → ∀ g, files p = .error g →
          r = ⟨c.questionsFor (before ++ [p]), .error (.unreadable p g)⟩) ∧
        (¬ c.OnStack p → ∀ t, files p = .ok t →
          r = ⟨c.questionsFor (before ++ [p]) ++ (((c.enter p).expand p.text t).run files).questions,
            (((c.enter p).expand p.text t).run files).result⟩)) := by
  intro r ps
  constructor
  · intro hfull
    have hr : r = _ := Inquiry.run_mapError files _ _
    rw [hr, include_of_full hfile hfull]
    rfl
  intro hroom
  have hr : r = ⟨((c.includeFirst expandIncluded start file ps).run files).questions,
      ((c.includeFirst expandIncluded start file ps).run files).result.mapError
        (Failure.inSource source whole)⟩ := by
    have hr : r = _ := Inquiry.run_mapError files _ _
    rw [hr, include_of_room hfile hroom]
    rfl
  constructor
  · intro hnone
    have hrun := run_includeFirst_unsettled hnone expandIncluded start file []
    rw [List.append_nil] at hrun
    have hend : (c.includeFirst expandIncluded start file []).run files =
        ⟨[], .error (.here ⟨start, .includeNotFound file⟩)⟩ := rfl
    rw [hr, hrun, hend, List.append_nil]
    rfl
  · intro before p after hps hbefore hp
    have hrun := run_includeFirst_unsettled hbefore expandIncluded start file (p :: after)
    rw [← hps] at hrun
    rw [hr, hrun]
    refine ⟨fun hopen => ?_, fun hopen g hg => ?_, fun hopen t ht => ?_⟩
    · rw [run_includeFirst_open hopen, List.append_nil]
      rfl
    · have hkind : g.kind ≠ .notFound := hp.resolve_left hopen g hg
      rw [run_includeFirst_unreadable hopen hg hkind, questionsFor_concat]
      rfl
    · have hincluded : expandIncluded (c.enter p) t = (c.enter p).expand p.text t := rfl
      rw [run_includeFirst_given hopen ht, hincluded, questionsFor_concat, List.append_assoc]
      -- an error of the included file is handed on as it is
      cases (((c.enter p).expand p.text t).run files).result <;> rfl

/-- Behind a miss, a file that fails is settled on, although there is another behind it. -/
theorem include_first_match_failing :
    "f".toList ≠ [] ∧
    (((Context.command ⟨.empty, [⟨"d".toList⟩, ⟨"e".toList⟩], 9, [], ⟨"r".toList⟩⟩ (expanderWithin 8)
      "$(include-file f)".toList [includeCommand, "f".toList]).mapError
        (Failure.inSource "r".toList "$(include-file f)".toList)).run
      (FileTable.ofList [(⟨"d/f".toList⟩, .ok "$\x7bx\x7d".toList), (⟨"e/f".toList⟩, .ok "y".toList)]).read) =
      ⟨[⟨[⟨"r".toList⟩], ⟨"f".toList⟩⟩, ⟨[⟨"r".toList⟩], ⟨"d/f".toList⟩⟩],
        .error (.source ⟨⟨"d/f".toList, ⟨1, 1⟩⟩, .undefinedVariable "x".toList []⟩)⟩ := by
  obtain ⟨c, hc⟩ : ∃ c : Context, c = ⟨.empty, [⟨"d".toList⟩, ⟨"e".toList⟩], 9, [], ⟨"r".toList⟩⟩ := ⟨_, rfl⟩
  obtain ⟨files, hfiles⟩ : ∃ files, files =
    (FileTable.ofList [(⟨"d/f".toList⟩, .ok "$\x7bx\x7d".toList), (⟨"e/f".toList⟩, .ok "y".toList)]).read :=
      ⟨_, rfl⟩
  have hmiss : ∀ q ∈ [(⟨"f".toList⟩ : Path)], ¬ c.Settles files q := by
    rw [hc, hfiles]
    simp only [List.mem_singleton, forall_eq, not_settles_iff]
    exact ⟨by decide, .ofKind .notFound, by decide, rfl⟩
  have hopen : ¬ c.OnStack ⟨"d/f".toList⟩ := by
    rw [hc]
    decide
  have hfile : files ⟨"d/f".toList⟩ = .ok "$\x7bx\x7d".toList := by
    rw [hfiles]
    decide
  have hincluded : ((c.enter ⟨"d/f".toList⟩).expand "d/f".toList "$\x7bx\x7d".toList).run files =
      ⟨[], .error (.source ⟨⟨"d/f".toList, ⟨1, 1⟩⟩, .undefinedVariable "x".toList []⟩)⟩ := by
    rw [hc, hfiles]
    decide +kernel
  have hname : "f".toList ≠ [] := by decide
  have hfirst := (include_first_match c files "r".toList "$(include-file f)".toList
    "$(include-file f)".toList hname).2 (by rw [hc]; decide)
  have hrun := (hfirst.2 [⟨"f".toList⟩] ⟨"d/f".toList⟩ [⟨"e/f".toList⟩] (by rw [hc]; decide) hmiss
    (.inr fun g hg => by rw [hfile] at hg; cases hg)).2.2 hopen _ hfile
  have hlevels : c.levelsLeft = 8 := by rw [hc]; rfl
  rw [Path.text_mk, hincluded, hlevels] at hrun
  rw [← hc, ← hfiles]
  refine ⟨hname, hrun.trans ?_⟩
  rw [hc]
  rfl

end TextTemplate.Context

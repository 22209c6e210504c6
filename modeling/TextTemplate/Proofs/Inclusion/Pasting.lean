import Mathlib.Data.List.Forall2
import TextTemplate.Files.Memory
import TextTemplate.Proofs.Inclusion.Concatenation
import TextTemplate.Proofs.Path
import TextTemplate.Proofs.Template.Join

/-!
# Pasting an included file

To include a file and join the next line is the same as to have the text of the file in front of that line, if it
lies in the directory of the including file. The included file is expanded on a longer stack, where more is refused:
what expands there expands on the shorter stack too, to the same output, with the files that it includes in their
turn found under other spellings of the same paths.

Main results:
* `Context.expand_succeeds`: an expansion on a longer stack and the one on a shorter.
* `Context.expand_pasted`: an included file and its text in place.
-/

namespace TextTemplate

/-! ## Specification -/

/-- The files do not tell the spellings of a path apart. -/
def Files.RespectsSame (files : Files) : Prop := ∀ p q, p.Same q → files p = files q

/-- The directive that includes a file whose name is written `w` between quotes `q`, and a join behind it. -/
def includeAndJoin (q : Char) (w : Text) : Text :=
  ['$', '('] ++ includeCommand ++ [' ', q] ++ w ++ [q, ')', '$', '\n']

theorem FileTable.read_respectsSame (t : FileTable) : t.read.RespectsSame := by
  intro p q hpq
  have hfind : t.find? p = t.find? q := by
    rw [find?, find?]
    congr 2
    funext e
    exact decide_eq_decide.2 ⟨fun h => h.trans hpq, fun h => h.trans hpq.symm⟩
  rw [read, read, hfind]

namespace Context

/-- An include is looked for at `p`, and nothing is found before. -/
def Resolves (c : Context) (files : Files) (file : Text) (p : Path) : Prop :=
  ∃ before after, c.candidates ⟨file⟩ = before ++ p :: after ∧
    ∀ p' ∈ before, ∃ g, files p' = .error g ∧ g.kind = .notFound

/-- The second context refuses no more than the first does: no more files are open in it, none that is not open in the
    first, and the current files lie in the same directory. -/
structure Loosens (c c' : Context) : Prop where
  /-- The bindings are the same. -/
  bindings : c'.bindings = c.bindings
  /-- The search directories are the same. -/
  searchDirs : c'.searchDirs = c.searchDirs
  /-- The limit is the same. -/
  maxDepth : c'.maxDepth = c.maxDepth
  /-- No more files are open. -/
  depth : c'.depth ≤ c.depth
  /-- Whatever is open in the second is open in the first. -/
  stack : ∀ p, c'.OnStack p → c.OnStack p
  /-- The current files lie in the same directory. -/
  parent : c.current.parent.Same c'.current.parent

end Context

/-! ## Inquiries that succeed -/

namespace Inquiry

variable {ε δ α : Type} {files : Files}

/-- If the first inquiry ends well, so does the second, with the same result. -/
def Succeeds (files : Files) (x : Inquiry ε α) (y : Inquiry δ α) : Prop :=
  ∀ a, (x.run files).result = .ok a → (y.run files).result = .ok a

theorem succeeds_compositional (files : Files) :
    Compositional fun (x y : Inquiry ε _) => Succeeds files x y where
  pure a := fun _ h => h
  bind := by
    intro α β x y f g hx hf b h
    obtain ⟨a, ha, hb⟩ := exists_of_run_bind_ok h
    rw [run_bind_ok (hx a ha)]
    exact hf a b hb

theorem succeeds_of_error {x : Inquiry ε α} {e : ε} (h : (x.run files).result = .error e)
    (y : Inquiry δ α) : Succeeds files x y := by
  intro a ha
  rw [h] at ha
  cases ha

end Inquiry

namespace Context

/-! ## Longer and shorter stacks -/

section Loosens

variable {c c' : Context} {files : Files} {e e' : Expander}

theorem onStack_enter (c : Context) (p q : Path) :
    (c.enter p).OnStack q ↔ c.OnStack q ∨ p.Same q := by
  simp [OnStack, stack_enter, or_and_right, exists_or]

theorem OnStack.of_same {p q : Path} (h : c.OnStack p) (hpq : p.Same q) : c.OnStack q := by
  obtain ⟨r, hr, hrp⟩ := h
  exact ⟨r, hr, hrp.trans hpq⟩

theorem Loosens.enter (h : c.Loosens c') {p p' : Path} (hp : p.Same p') :
    (c.enter p).Loosens (c'.enter p') where
  bindings := h.bindings
  searchDirs := h.searchDirs
  maxDepth := h.maxDepth
  depth := by
    rw [depth_enter, depth_enter]
    exact Nat.succ_le_succ h.depth
  stack := by
    intro q hq
    rw [onStack_enter] at hq ⊢
    exact hq.imp (h.stack q) hp.trans
  parent := hp.parent

/-- The candidates are the same paths in another spelling. -/
theorem Loosens.candidates (h : c.Loosens c') (file : Path) :
    List.Forall₂ Path.Same (c.candidates file) (c'.candidates file) := by
  rw [Context.candidates, Context.candidates, h.searchDirs]
  exact .cons (h.parent.join file) (List.forall₂_same.2 fun p _ => Path.Same.refl p)

theorem visit_succeeds {p p' : Path} (hfiles : files p = files p')
    (he : ∀ t, Inquiry.Succeeds files (e (c.enter p) t) (e' (c'.enter p') t)) :
    Inquiry.Succeeds files (c.visit e p) (c'.visit e' p') := by
  intro o h
  cases hp : files p with
  | error g =>
    rw [run_visit_error hp] at h
    rw [run_visit_error (hfiles.symm.trans hp)]
    simp only at h ⊢
    split_ifs at h ⊢
    exact h
  | ok t =>
    rw [run_visit_ok hp] at h
    obtain ⟨u, hu, rfl⟩ := exists_of_map_eq_ok h
    rw [run_visit_ok (hfiles.symm.trans hp), he t u hu]
    rfl

theorem includeFirst_succeeds (h : c.Loosens c') (hfiles : files.RespectsSame)
    (he : ∀ p p', p.Same p' → ∀ t, Inquiry.Succeeds files (e (c.enter p) t) (e' (c'.enter p') t))
    (u file : Text) {ps ps' : List Path} (hps : List.Forall₂ Path.Same ps ps') :
    Inquiry.Succeeds files (c.includeFirst e u file ps) (c'.includeFirst e' u file ps') := by
  induction hps with
  | nil => exact Inquiry.succeeds_of_error rfl _
  | cons hp _ ih =>
    rename_i p p' ps ps' _
    by_cases hstack : c.OnStack p
    · rw [includeFirst, if_pos hstack]
      exact Inquiry.succeeds_of_error rfl _
    · have hstack' : ¬ c'.OnStack p' := fun h' => hstack ((h.stack p' h').of_same hp.symm)
      rw [includeFirst_cons hstack, includeFirst_cons hstack']
      have hvisit : Inquiry.Succeeds files ((c.visit e p).mapError Failure.elsewhere)
          ((c'.visit e' p').mapError Failure.elsewhere) := by
        intro o ho
        rw [Inquiry.run_mapError_eq_ok_iff] at ho ⊢
        exact visit_succeeds (hfiles p p' hp) (he p p' hp) o ho
      refine (Inquiry.succeeds_compositional files).bind hvisit ?_
      rintro (_ | t)
      · exact ih
      · exact fun _ h => h

theorem command_succeeds (h : c.Loosens c') (hfiles : files.RespectsSame)
    (he : c.depth < c.maxDepth → ∀ p p', p.Same p' → ∀ t,
      Inquiry.Succeeds files (e (c.enter p) t) (e' (c'.enter p') t)) (u : Text) (words : List Text) :
    Inquiry.Succeeds files (c.command (c.within e) u words) (c'.command (c'.within e') u words) := by
  rcases command_cases words with rfl | ⟨cause, -, hrefuse⟩ | ⟨file, hfile, rfl⟩
  · exact fun _ h => h
  · rw [hrefuse, hrefuse]
    exact fun _ h => h
  · rw [command_include c _ u hfile, command_include c' _ u hfile]
    unfold within
    by_cases hd : c.depth < c.maxDepth
    · have hd' : c'.depth < c'.maxDepth := by
        rw [h.maxDepth]
        exact Nat.lt_of_le_of_lt h.depth hd
      rw [if_pos hd, if_pos hd']
      exact includeFirst_succeeds h hfiles (he hd) u file (h.candidates ⟨file⟩)
    · rw [if_neg hd]
      exact Inquiry.succeeds_of_error rfl _

end Loosens

/-- What expands on a longer stack expands on a shorter one, under whatever name. -/
theorem expand_succeeds {c c' : Context} (h : c.Loosens c') {files : Files}
    (hfiles : files.RespectsSame) (source source' s : Text) :
    Inquiry.Succeeds files (c.expand source s) (c'.expand source' s) := by
  have hincluded : c.depth < c.maxDepth → ∀ p p', p.Same p' → ∀ t,
      Inquiry.Succeeds files (expandIncluded (c.enter p) t) (expandIncluded (c'.enter p') t) :=
    fun hd p p' hp t => expand_succeeds (h.enter hp) hfiles p.text p'.text t
  intro o ho
  rw [expand_eq_ok_iff] at ho ⊢
  have hmeaning : c.meaning.Related (fun x y => Inquiry.Succeeds files x y) (fun _ => True)
      c'.meaning := by
    refine ⟨fun u _ name => ?_, fun u _ words => command_succeeds h hfiles hincluded u words⟩
    have hlookUp : c'.lookUp u name = c.lookUp u name := by rw [lookUp, lookUp, h.bindings]
    show Inquiry.Succeeds files (c.lookUp u name) (c'.lookUp u name)
    rw [hlookUp]
    exact fun _ h => h
  exact evalText_related (Inquiry.succeeds_compositional files) hmeaning s (fun _ _ => trivial)
    (fun _ _ _ h => h) o ho
termination_by c.levelsLeft
decreasing_by exact levelsLeft_enter_lt hd p

/-! ## The include and what it stands for -/

/-- The directive is derived in front of the join. -/
theorem expansionAt_includeAndJoin {q : Char} (hq : isQuote q = true) {w file : Text}
    (hw : Quoted.Writes q w file) (v : Text) :
    ExpansionAt (.directive (includeAndJoin q w ++ v) [[.text includeCommand], [.text file]])
      (includeAndJoin q w ++ v) ('$' :: '\n' :: v) := by
  have hcommand : WordAt [.text includeCommand]
      (includeCommand ++ ' ' :: q :: (w ++ q :: ')' :: '$' :: '\n' :: v))
      ([' '] ++ q :: (w ++ q :: ')' :: '$' :: '\n' :: v)) :=
    .last (.bareword ⟨rfl, List.all_eq_true.1 rfl, by rintro c ⟨⟩; decide⟩ (by decide))
      (by rintro c ⟨⟩; decide)
  have hfile : WordAt [.text file] (q :: (w ++ q :: ')' :: '$' :: '\n' :: v))
      (')' :: '$' :: '\n' :: v) :=
    .last (.quoted hq hw) (by rintro c ⟨⟩; decide)
  have hwords := WordsAt.cons hcommand (List.cons_ne_nil _ _) (List.all_eq_true.1 rfl) (.last hfile)
  have hnone : ∀ c ∈ ([] : Text), isGap c = true := by simp
  have hdirective := ExpansionAt.directive hnone hwords hnone
  have htext : includeAndJoin q w ++ v =
      '$' :: '(' :: ([] ++ (includeCommand ++ ' ' :: q :: (w ++ q :: ')' :: '$' :: '\n' :: v))) := by
    simp [includeAndJoin]
  rw [htext]
  exact hdirective

section Include

variable {c : Context} {files : Files} {e : Expander} {u file F o : Text} {p : Path}

/-- The search ends with the file that is found. -/
theorem run_includeFirst_found {before after : List Path}
    (hbefore : ∀ p' ∈ before, ∃ g, files p' = .error g ∧ g.kind = .notFound)
    (hp : files p = .ok F)
    (h : ((c.includeFirst e u file (before ++ p :: after)).run files).result = .ok o) :
    ((e (c.enter p) F).run files).result = .ok o := by
  have hstack : ∀ p ps, ((c.includeFirst e u file (p :: ps)).run files).result = .ok o →
      ¬ c.OnStack p := by
    intro p ps h hp
    rw [includeFirst, if_pos hp] at h
    cases h
  induction before with
  | nil =>
    rw [List.nil_append] at h
    rw [includeFirst, if_neg (hstack p after h), Inquiry.run_ask] at h
    simp only [hp] at h
    exact Inquiry.run_mapError_eq_ok_iff.1 h
  | cons p' before ih =>
    rw [List.forall_mem_cons] at hbefore
    obtain ⟨⟨g, hg, hkind⟩, hbefore⟩ := hbefore
    rw [List.cons_append] at h
    rw [includeFirst, if_neg (hstack p' _ h), Inquiry.run_ask] at h
    simp only [hg, if_pos hkind] at h
    exact ih hbefore h

theorem run_include_found (hr : c.Resolves files file p) (hp : files p = .ok F)
    (h : ((c.meaning.directive u [includeCommand, file]).run files).result = .ok o) :
    ((c.enter p).expand p.text F |>.run files).result = .ok o := by
  obtain ⟨before, after, hcandidates, hbefore⟩ := hr
  have hdirective : c.meaning.directive u [includeCommand, file] =
      c.includeFile (c.within expandIncluded) u file := by
    show c.command _ u [includeCommand, file] = _
    rw [command, if_pos rfl]
  rw [hdirective] at h
  unfold includeFile within at h
  split_ifs at h with hfile hd
  · cases h
  · rw [hcandidates] at h
    exact run_includeFirst_found hbefore hp h
  · cases h

/-- Going into a file of the same directory makes nothing looser. -/
theorem loosens_enter (h : p.parent.Same c.current.parent) : (c.enter p).Loosens c where
  bindings := rfl
  searchDirs := rfl
  maxDepth := rfl
  depth := by
    rw [depth_enter]
    exact Nat.le_succ _
  stack := fun q hq => (onStack_enter c p q).2 (.inl hq)
  parent := h

end Include

/-! ## Main theorem -/

/-- Where an include is followed by a join and more text, the text of the included file can stand in its place. The
    file is found in the directory of the current file, it ends its line, and the text behind the join is neither
    empty nor starts with a comment alone in its line. -/
theorem expand_pasted {files : Files} (hfiles : files.RespectsSame) (c : Context) (source : Text)
    {q : Char} (hq : isQuote q = true) {w file : Text} (hw : Quoted.Writes q w file) {p : Path}
    (hr : c.Resolves files file p) (hparent : p.parent.Same c.current.parent) {F : Text}
    (hp : files p = .ok F) (hF : EndsLine F) {v : Text} (hv : v ≠ [])
    (hcomment : ¬ ['$', '-', '-'] <+: v.dropWhile isBlank) {o : Text}
    (h : ((c.expand source (includeAndJoin q w ++ v)).run files).result = .ok o) :
    ((c.expand source (F ++ v)).run files).result = .ok o := by
  rw [expand_eq_ok_iff] at h ⊢
  obtain ⟨ts, hts⟩ := exists_derives_of_run_evalText h
  obtain ⟨ls, hls, heval⟩ := hts.of_join (expansionAt_includeAndJoin hq hw v) hv hcomment
  have hvalue : evalText c.meaning (includeAndJoin q w ++ v) = Template.eval c.meaning ts := by
    rw [evalText, hts.read]
  have hrest : evalText c.meaning v = Template.eval c.meaning ls := by rw [evalText, hls.read]
  rw [hvalue, heval, ← hrest] at h
  obtain ⟨t, ht, h⟩ := Inquiry.exists_of_run_bind_ok h
  obtain ⟨t', ht', h⟩ := Inquiry.exists_of_run_bind_ok h
  cases h
  have hdirective : Expansion.eval c.meaning (.directive (includeAndJoin q w ++ v)
      [[.text includeCommand], [.text file]]) =
        c.meaning.directive (includeAndJoin q w ++ v) [includeCommand, file] :=
    Expansion.eval_directive_texts c.meaning _ [includeCommand, file]
  rw [hdirective] at ht
  have hincluded := expand_succeeds (loosens_enter hparent) hfiles p.text source F t
    (run_include_found hr hp ht)
  rw [expand_eq_ok_iff] at hincluded
  rw [run_evalText_append hF hincluded, ht']
  rfl

/-- A file that produces a dollar sign, and a line behind it that is indented. -/
theorem expand_pasted_indented :
    (((ofRoot .empty ⟨"d/r".toList⟩).expand "d/r".toList
      (includeAndJoin '"' "f".toList ++ " b\n".toList)).run
        (FileTable.ofList [(⟨"d/f".toList⟩, .ok "a $$\n".toList)]).read).result =
          .ok "a $\n b\n".toList ∧
    (((ofRoot .empty ⟨"d/r".toList⟩).expand "d/r".toList ("a $$\n".toList ++ " b\n".toList)).run
      (FileTable.ofList [(⟨"d/f".toList⟩, .ok "a $$\n".toList)]).read).result =
        .ok "a $\n b\n".toList := by
  obtain ⟨files, hfiles⟩ : ∃ files, files =
    (FileTable.ofList [(⟨"d/f".toList⟩, .ok "a $$\n".toList)]).read := ⟨_, rfl⟩
  have hinclude : (((ofRoot .empty ⟨"d/r".toList⟩).expand "d/r".toList
      (includeAndJoin '"' "f".toList ++ " b\n".toList)).run files).result =
        .ok "a $\n b\n".toList := by
    rw [hfiles]
    decide +kernel
  have hrespects : files.RespectsSame := hfiles ▸ FileTable.read_respectsSame _
  have hresolves : (ofRoot .empty ⟨"d/r".toList⟩).Resolves files "f".toList ⟨"d/f".toList⟩ :=
    ⟨[], [], by decide, by simp⟩
  have hwrites : Quoted.Writes '"' "f".toList "f".toList :=
    .raw (by decide) (by decide) (by decide) .nil
  have hfile : files ⟨"d/f".toList⟩ = .ok "a $$\n".toList := by
    rw [hfiles]
    decide
  have hends : EndsLine "a $$\n".toList := .inr ⟨"a ".toList, 1, by decide, by decide⟩
  rw [← hfiles]
  exact ⟨hinclude, expand_pasted hrespects _ _ (by decide) hwrites hresolves (by decide) hfile hends
    (by decide) (by decide) hinclude⟩

end Context

end TextTemplate

import TextTemplate.Files.Memory
import TextTemplate.Proofs.Inclusion.Reached
import TextTemplate.Proofs.Inclusion.Separation

/-!
# Extending a context

A context can be given more: more bindings, further directories to search, and a higher limit on open files. What
expands in it then expands to the same with the same questions, and what fails fails in the same way, unless the
error complains of what there is now more of. An inquiry persists if it is run as another one is, and this is
carried through the evaluation of a text and, by recursion over the levels left, through its includes.

Main results:
* `Context.expand_persists`: an expansion and the one in an extended context.
* `limit_of_depthExceeded`: the limit that an error names is that of the context.
* `Context.expansion_extended`: the ends of both expansions.
-/

namespace TextTemplate

/-! ## Specification -/

/-- What a context can be given more of. -/
inductive Resource where
  | bindings
  | searchDirs
  | maxDepth
  deriving DecidableEq

/-- What there was too little of, if a cause complains of that. -/
def Cause.lacks : Cause → Option Resource
  | .undefinedVariable _ _ => some .bindings
  | .includeNotFound _ => some .searchDirs
  | .depthExceeded _ => some .maxDepth
  | _ => none

/-- What there was too little of, if an error complains of that. A file that cannot be read is none of it. -/
def ExpandError.lacks : ExpandError → Option Resource
  | .source error => error.cause.lacks
  | .unreadable _ _ => none

theorem exists_of_lacks_maxDepth {err : ExpandError} (h : err.lacks = some .maxDepth) :
    ∃ location limit, err = .source ⟨location, .depthExceeded limit⟩ := by
  cases err with
  | unreadable p g => cases h
  | source e =>
    obtain ⟨location, cause⟩ := e
    cases cause with
    | depthExceeded limit => exact ⟨location, limit, rfl⟩
    | _ => cases h

/-- What there was too little of, if a failure complains of that. -/
def Failure.lacks : Failure → Option Resource
  | .here defect => defect.cause.lacks
  | .elsewhere error => error.lacks

theorem Failure.lacks_inSource (source whole : Text) (f : Failure) :
    (f.inSource source whole).lacks = f.lacks := by
  cases f <;> rfl

namespace Context

/-- The second context has all that the first has, and may have more. -/
structure Extends (c c' : Context) : Prop where
  /-- The same files are being expanded. -/
  stack : c'.stack = c.stack
  /-- What is bound is bound to the same. -/
  bindings : ∀ name expansion, c.bindings.get? name = some expansion →
    c'.bindings.get? name = some expansion
  /-- The same directories are searched first. -/
  searchDirs : c.searchDirs <+: c'.searchDirs
  /-- No fewer files may be open. -/
  maxDepth : c.maxDepth ≤ c'.maxDepth

/-- The two contexts have the same of a resource. -/
def Agrees (c c' : Context) : Resource → Prop
  | .bindings => c'.bindings = c.bindings
  | .searchDirs => c'.searchDirs = c.searchDirs
  | .maxDepth => c'.maxDepth = c.maxDepth

end Context

/-! ## Inquiries that persist -/

namespace Inquiry

variable {ε δ α β : Type} {files : Files} {S : ε → Prop}

/-- The second inquiry runs as the first does, provided that the first does not fail otherwise than by `S`. -/
def Persists (files : Files) (S : ε → Prop) (x y : Inquiry ε α) : Prop :=
  (∀ e, (x.run files).result = .error e → S e) → y.run files = x.run files

theorem Persists.run_eq_of_ok {x y : Inquiry ε α} (h : Persists files S x y) {a : α}
    (ha : (x.run files).result = .ok a) : y.run files = x.run files := by
  refine h fun e he => ?_
  rw [ha] at he
  cases he

theorem Persists.run_eq_of_error {x y : Inquiry ε α} (h : Persists files S x y) {e : ε}
    (he : (x.run files).result = .error e) (hS : S e) : y.run files = x.run files := by
  refine h fun e' he' => ?_
  rw [he] at he'
  cases he'
  exact hS

theorem persists_of_error {x y : Inquiry ε α} {e : ε} (hx : (x.run files).result = .error e)
    (h : S e → y.run files = x.run files) : Persists files S x y :=
  fun hS => h (hS e hx)

theorem persists_compositional (files : Files) (S : ε → Prop) :
    Compositional fun x y => Persists files S x y where
  pure a := fun _ => rfl
  bind := by
    intro α β x y f g hx hf hS
    cases hr : (x.run files).result with
    | error e =>
      have hy := hx fun e' he' => hS e' (by rw [run_bind_error he'])
      rw [run_bind_error hr, run_bind_error (by rw [hy]; exact hr), hy]
    | ok a =>
      have hy := hx.run_eq_of_ok hr
      rw [run_bind_ok hr] at hS ⊢
      rw [run_bind_ok (by rw [hy]; exact hr), hy, hf a hS]

theorem Persists.mapError {g : ε → δ} {S : δ → Prop} {x y : Inquiry ε α}
    (h : Persists files (fun e => S (g e)) x y) : Persists files S (x.mapError g) (y.mapError g) := by
  intro hS
  rw [run_mapError, run_mapError, h]
  intro e he
  refine hS (g e) ?_
  rw [run_mapError, he]
  rfl

end Inquiry

/-! ## References and directives -/

namespace Context

variable {c c' : Context} {files : Files}

/-- The second context has the same of whatever is lacking. -/
def Supplied (c c' : Context) (lacking : Option Resource) : Prop :=
  ∀ r, lacking = some r → c.Agrees c' r

namespace Extends

theorem current_eq (h : c.Extends c') : c'.current = c.current :=
  List.singleton_inj.1 (List.append_inj' h.stack rfl).2

theorem onStack_iff (h : c.Extends c') (p : Path) : c'.OnStack p ↔ c.OnStack p := by
  unfold OnStack
  rw [h.stack]

theorem enter (h : c.Extends c') (p : Path) : (c.enter p).Extends (c'.enter p) where
  stack := by rw [stack_enter, stack_enter, h.stack]
  bindings := h.bindings
  searchDirs := h.searchDirs
  maxDepth := h.maxDepth

/-- Further candidates come behind, one for each further directory. -/
theorem candidates (h : c.Extends c') (file : Path) :
    ∃ ps, c'.candidates file = c.candidates file ++ ps ∧ (c'.searchDirs = c.searchDirs → ps = []) := by
  obtain ⟨dirs, hdirs⟩ := h.searchDirs
  refine ⟨dirs.map (·.join file), ?_, ?_⟩
  · rw [Context.candidates, ← hdirs, h.current_eq, List.map_append]
    rfl
  · intro heq
    obtain rfl : dirs = [] := by simpa [heq] using hdirs
    rfl

end Extends

theorem lookUp_persists (h : c.Extends c') (u name : Text) :
    Inquiry.Persists files (fun f => c.Supplied c' f.lacks) (c.lookUp u name) (c'.lookUp u name) := by
  cases hname : c.bindings.get? name with
  | some expansion =>
    rw [lookUp, lookUp, hname, h.bindings name expansion hname]
    exact fun _ => rfl
  | none =>
    refine Inquiry.persists_of_error (by rw [lookUp, hname]; rfl) fun hsupplied => ?_
    have hbindings : c'.bindings = c.bindings := hsupplied .bindings rfl
    rw [lookUp, lookUp, hbindings]

section Includes

variable {e : Expander}

theorem visit_persists (h : c.Extends c') {p : Path}
    (he : ∀ t, Inquiry.Persists files (fun err => c.Supplied c' err.lacks)
      (e (c.enter p) t) (e (c'.enter p) t)) :
    Inquiry.Persists files (fun err => c.Supplied c' err.lacks) (c.visit e p) (c'.visit e p) := by
  cases hfile : files p with
  | error g =>
    intro _
    rw [run_visit_error hfile, run_visit_error hfile, h.stack]
  | ok t =>
    intro hS
    rw [run_visit_ok hfile, run_visit_ok hfile, h.stack, he t]
    intro err herr
    refine hS err ?_
    rw [run_visit_ok hfile, herr]
    rfl

theorem includeFirst_persists (h : c.Extends c')
    (he : ∀ p t, Inquiry.Persists files (fun err => c.Supplied c' err.lacks)
      (e (c.enter p) t) (e (c'.enter p) t)) (u file : Text) {further : List Path}
    (hfurther : c'.searchDirs = c.searchDirs → further = []) (ps : List Path) :
    Inquiry.Persists files (fun f => c.Supplied c' f.lacks)
      (c.includeFirst e u file ps) (c'.includeFirst e u file (ps ++ further)) := by
  induction ps with
  | nil =>
    refine Inquiry.persists_of_error rfl fun hsupplied => ?_
    rw [List.nil_append, hfurther (hsupplied .searchDirs rfl)]
    rfl
  | cons p ps ih =>
    by_cases hp : c.OnStack p
    · rw [List.cons_append, includeFirst, if_pos hp, includeFirst, if_pos ((h.onStack_iff p).2 hp),
        h.stack]
      exact fun _ => rfl
    · rw [List.cons_append, includeFirst_cons hp, includeFirst_cons (mt (h.onStack_iff p).1 hp)]
      have hvisit : Inquiry.Persists files (fun f : Failure => c.Supplied c' f.lacks)
          ((c.visit e p).mapError Failure.elsewhere) ((c'.visit e p).mapError Failure.elsewhere) :=
        Inquiry.Persists.mapError (visit_persists h (he p))
      refine (Inquiry.persists_compositional files _).bind hvisit ?_
      rintro (_ | t)
      · exact ih
      · exact fun _ => rfl

theorem command_persists (h : c.Extends c')
    (he : c.depth < c.maxDepth → ∀ p t, Inquiry.Persists files (fun err => c.Supplied c' err.lacks)
      (e (c.enter p) t) (e (c'.enter p) t)) (u : Text) (words : List Text) :
    Inquiry.Persists files (fun f => c.Supplied c' f.lacks)
      (c.command (c.within e) u words) (c'.command (c'.within e) u words) := by
  have hdepth : c'.depth = c.depth := by rw [depth, h.stack, depth]
  rcases command_cases words with rfl | ⟨cause, -, hrefuse⟩ | ⟨file, hfile, rfl⟩
  · exact fun _ => rfl
  · rw [hrefuse, hrefuse]
    exact fun _ => rfl
  · rw [command_include c _ u hfile, command_include c' _ u hfile]
    unfold within
    by_cases hd : c.depth < c.maxDepth
    · have hd' : c'.depth < c'.maxDepth := by
        rw [hdepth]
        exact Nat.lt_of_lt_of_le hd h.maxDepth
      obtain ⟨further, hcandidates, hfurther⟩ := h.candidates ⟨file⟩
      rw [if_pos hd, if_pos hd', hcandidates]
      exact includeFirst_persists h (he hd) u file hfurther _
    · rw [if_neg hd]
      refine Inquiry.persists_of_error rfl fun hsupplied => ?_
      have hlimit : c'.maxDepth = c.maxDepth := hsupplied .maxDepth rfl
      rw [hdepth, hlimit, if_neg hd]

end Includes

/-! ## Expansions -/

/-- An expansion persists in an extended context, if it does not fail for what there is now more of. -/
theorem expand_persists {c c' : Context} (h : c.Extends c') (files : Files) (source s : Text) :
    Inquiry.Persists files (fun err => c.Supplied c' err.lacks) (c.expand source s)
      (c'.expand source s) := by
  have hincluded : c.depth < c.maxDepth → ∀ p t,
      Inquiry.Persists files (fun err => c.Supplied c' err.lacks)
        (expandIncluded (c.enter p) t) (expandIncluded (c'.enter p) t) :=
    fun hd p t => expand_persists (h.enter p) files p.text t
  rw [expand_eq_eval, expand_eq_eval]
  refine Inquiry.Persists.mapError ?_
  simp only [Failure.lacks_inSource]
  refine evalText_related (Inquiry.persists_compositional files _) (P := fun _ => True) ?_ s
    (fun _ _ => trivial) fun _ _ _ => rfl
  exact ⟨fun u _ name => lookUp_persists h u name, fun u _ words => command_persists h hincluded u words⟩
termination_by c.levelsLeft
decreasing_by exact levelsLeft_enter_lt hd p

end Context

/-! ## The limit on open files -/

/-- Wherever too many files are open, the limit that is reported is that of the context. -/
theorem limit_of_depthExceeded {files : Files} {a : Call} {e : SourceError} {limit : Nat}
    (h : (a.run files).result = .error (.source e)) (he : e.cause = .depthExceeded limit) :
    limit = a.context.maxDepth := by
  rcases exists_reached_of_error files a h with ⟨b, hb, -, hown⟩ | ⟨p, g, hread⟩
  · rcases hown with ⟨u, cause, -, hcause, herr⟩ | ⟨t, -, herr⟩
    · cases herr
      obtain rfl : cause = .depthExceeded limit := he
      cases hcause
      exact (settings_of_reached hb).2.2
    · cases herr
      cases he
  · cases hread

namespace Context

/-! ## Main theorem -/

/-- In an extended context an expansion runs as before, with the same questions to the same end: if it ends well,
    and if it fails with an error that complains of no lack. If the limit on open files alone is another, it
    also does so with any other error than that of the limit; so a lower limit leaves the run as it is or makes it fail
    with that error, which names the lower limit. -/
theorem expansion_extended {c c' : Context} (h : c.Extends c') (files : Files) (source s : Text) :
    (∀ o, ((c.expand source s).run files).result = .ok o →
      (c'.expand source s).run files = (c.expand source s).run files) ∧
    (∀ err, ((c.expand source s).run files).result = .error err → err.lacks = none →
      (c'.expand source s).run files = (c.expand source s).run files) ∧
    (c'.bindings = c.bindings → c'.searchDirs = c.searchDirs →
      (∀ err, ((c.expand source s).run files).result = .error err → err.lacks ≠ some .maxDepth →
        (c'.expand source s).run files = (c.expand source s).run files) ∧
      ((c.expand source s).run files = (c'.expand source s).run files ∨
        ∃ location, ((c.expand source s).run files).result =
          .error (.source ⟨location, .depthExceeded c.maxDepth⟩))) := by
  have hpersists := expand_persists h files source s
  have hlimit : c'.bindings = c.bindings → c'.searchDirs = c.searchDirs → ∀ err,
      ((c.expand source s).run files).result = .error err → err.lacks ≠ some .maxDepth →
      (c'.expand source s).run files = (c.expand source s).run files := by
    intro hbindings hdirs err herr hlacks
    refine hpersists.run_eq_of_error herr fun r hr => ?_
    cases r with
    | bindings => exact hbindings
    | searchDirs => exact hdirs
    | maxDepth => exact absurd hr hlacks
  refine ⟨fun o ho => hpersists.run_eq_of_ok ho, ?_, fun hbindings hdirs =>
    ⟨hlimit hbindings hdirs, ?_⟩⟩
  · intro err herr hnone
    refine hpersists.run_eq_of_error herr fun r hr => ?_
    rw [hnone] at hr
    cases hr
  · cases hr : ((c.expand source s).run files).result with
    | ok o => exact .inl (hpersists.run_eq_of_ok hr).symm
    | error err =>
      by_cases hlacks : err.lacks = some .maxDepth
      · obtain ⟨location, limit, rfl⟩ := exists_of_lacks_maxDepth hlacks
        obtain rfl : limit = c.maxDepth := limit_of_depthExceeded (a := ⟨c, source, s⟩) hr rfl
        exact .inr ⟨location, rfl⟩
      · exact .inl (hlimit hbindings hdirs err hr hlacks).symm

/-- A further binding, a further directory where the included file exists too, and a higher limit. -/
theorem expansion_extended_directory :
    Extends ⟨.ofList [("a".toList, "1".toList)], [], 2, [], ⟨"r".toList⟩⟩
      ⟨.ofList [("a".toList, "1".toList), ("b".toList, "2".toList)], [⟨"d".toList⟩], 5, [], ⟨"r".toList⟩⟩ ∧
    ((expand ⟨.ofList [("a".toList, "1".toList), ("b".toList, "2".toList)], [⟨"d".toList⟩], 5, [],
        ⟨"r".toList⟩⟩ "r".toList "$\x7ba\x7d$(include-file f)\n".toList).run
      (FileTable.ofList [(⟨"f".toList⟩, .ok "x\n".toList), (⟨"d/f".toList⟩, .ok "y\n".toList)]).read) =
      ⟨[⟨[⟨"r".toList⟩], ⟨"f".toList⟩⟩], .ok "1x\n\n".toList⟩ := by
  obtain ⟨files, hfiles⟩ : ∃ files, files =
    (FileTable.ofList [(⟨"f".toList⟩, .ok "x\n".toList), (⟨"d/f".toList⟩, .ok "y\n".toList)]).read :=
      ⟨_, rfl⟩
  have hextends : Extends ⟨.ofList [("a".toList, "1".toList)], [], 2, [], ⟨"r".toList⟩⟩
      ⟨.ofList [("a".toList, "1".toList), ("b".toList, "2".toList)], [⟨"d".toList⟩], 5, [], ⟨"r".toList⟩⟩ := by
    refine ⟨by simp only [stack], fun name expansion h => ?_, List.nil_prefix, by decide⟩
    rw [Bindings.ofList, List.foldl, List.foldl, List.foldl, Bindings.get?_insert]
    split_ifs with hb
    · subst hb
      rw [Bindings.ofList, List.foldl, List.foldl, Bindings.get?_insert] at h
      simp [Bindings.get?_empty] at h
    · exact h
  have hrun : (expand ⟨.ofList [("a".toList, "1".toList)], [], 2, [], ⟨"r".toList⟩⟩ "r".toList
      "$\x7ba\x7d$(include-file f)\n".toList).run files =
        ⟨[⟨[⟨"r".toList⟩], ⟨"f".toList⟩⟩], .ok "1x\n\n".toList⟩ := by
    rw [hfiles]
    decide +kernel
  refine ⟨hextends, ?_⟩
  rw [← hfiles, (expansion_extended hextends files "r".toList
    "$\x7ba\x7d$(include-file f)\n".toList).1 _ (congrArg _ hrun), hrun]

end Context

end TextTemplate

import Mathlib.Data.List.Basic
import Mathlib.Data.List.Induction
import TextTemplate.Proofs.Inquiry
import TextTemplate.Session

/-!
# What becomes of a session

Of all that happens to a session only the loads that succeed leave something behind, and the last of them all that
there is: its bindings are in the place of those before, and no request that fails and no expansion changes them.
Everything else that the session answers is answered as by a new one with the same bindings and settings, from the
files as they are by then.

Main results:
* `Session.run_loadFile_of_ok`, `Session.expandText_eq`, `Session.run_expandFile_of_ok`: what is loaded and expanded.
* `Session.step_of_loads`, `Session.step_of_not_loads`: a request that loads bindings, and any other.
* `Situation.afterAll_eq`: the session after any number of events.
* `session_after_history`: what it is then, and what it answers.
-/

namespace TextTemplate

/-! ## Specification -/

/-- A request loads bindings from the files: those that the text defines. -/
inductive Session.Request.Loads (files : Files) : Session.Request → Bindings → Prop
  | file {path : Path} {text : Text} {b : Bindings} : files path = .ok text →
      Bindings.parse path.text text = .ok b → Loads files (.loadFile path) b
  | text {source text : Text} {b : Bindings} : Bindings.parse source text = .ok b →
      Loads files (.loadText source text) b

/-- The requests to load bindings. -/
def Session.Request.IsLoad : Session.Request → Prop
  | .loadFile _ | .loadText _ _ => True
  | .expandFile _ | .expandText _ _ => False

/-- What happens around a session. -/
inductive Event where
  /-- The files become others. -/
  | change (files : Files)
  /-- The session is asked something. -/
  | request (request : Session.Request)

/-- The files after events: those of the last change. -/
def filesAfter (files : Files) (es : List Event) : Files :=
  es.foldl (fun before e => match e with | .change after => after | .request _ => before) files

/-- The `n`-th event is a request that loads bindings from the files as they are by then. -/
def LoadsAt (files : Files) (es : List Event) (n : Nat) (b : Bindings) : Prop :=
  ∃ request, es[n]? = some (.request request) ∧ request.Loads (filesAfter files (es.take n)) b

/-- The bindings that were loaded last, or else those there were before. -/
def LastLoaded (before : Bindings) (files : Files) (es : List Event) (b : Bindings) : Prop :=
  (∃ n, LoadsAt files es n b ∧ ∀ m, n < m → ∀ b', ¬ LoadsAt files es m b') ∨
    (∀ m b', ¬ LoadsAt files es m b') ∧ b = before

/-- A session and the files that it finds. -/
structure Situation where
  /-- The session. -/
  session : Session
  /-- The files. -/
  files : Files

namespace Situation

/-- The situation after an event. -/
def after (w : Situation) : Event → Situation
  | .change files => { w with files := files }
  | .request request => { w with session := (w.session.step w.files request).1 }

/-- The situation after events, one after the other. -/
def afterAll (w : Situation) (es : List Event) : Situation := es.foldl after w

end Situation

/-! ## Files first -/

namespace Session

variable {files : Files} {path : Path} {α : Type}

theorem run_readFile_bind_of_ok {text : Text} (h : files path = .ok text)
    (f : Text → Inquiry ExpandError α) :
    ((readFile path).bind f).run files =
      ⟨⟨[], path⟩ :: ((f text).run files).questions, ((f text).run files).result⟩ := by
  rw [readFile, Inquiry.bind, Inquiry.run_ask]
  simp only [h, Inquiry.bind]

theorem run_readFile_bind_of_error {g : ReadFailure} (h : files path = .error g)
    (f : Text → Inquiry ExpandError α) :
    ((readFile path).bind f).run files = ⟨[⟨[], path⟩], .error (.unreadable path g)⟩ := by
  rw [readFile, Inquiry.bind, Inquiry.run_ask]
  simp only [h, Inquiry.bind, Inquiry.run_fail]

theorem run_loadText (source text : Text) :
    (loadText source text).run files = ⟨[], (Bindings.parse source text).mapError .source⟩ := by
  rw [loadText]
  cases Bindings.parse source text <;> rfl

theorem run_loadFile_of_ok {text : Text} (h : files path = .ok text) :
    (loadFile path).run files = ⟨[⟨[], path⟩], (Bindings.parse path.text text).mapError .source⟩ := by
  rw [loadFile, run_readFile_bind_of_ok h, run_loadText]

theorem run_loadFile_of_error {g : ReadFailure} (h : files path = .error g) :
    (loadFile path).run files = ⟨[⟨[], path⟩], .error (.unreadable path g)⟩ :=
  run_readFile_bind_of_error h _

/-- The context of a template is made of all that the session holds. -/
theorem context_eq (s : Session) (root : Path) :
    s.context root = ⟨s.bindings, s.searchDirs, s.maxDepth, [], root⟩ := rfl

/-- A text is expanded with the bindings and settings of the session, at the path that the name of its source spells. -/
theorem expandText_eq (s : Session) (source text : Text) :
    s.expandText source text =
      Context.expand ⟨s.bindings, s.searchDirs, s.maxDepth, [], ⟨source⟩⟩ source text := by
  rw [expandText, context_eq]

/-- A file is expanded with the bindings and settings of the session, at its path and under the name that is shown of
it. -/
theorem run_expandFile_of_ok {text : Text} (h : files path = .ok text) (s : Session) :
    let r := (Context.expand ⟨s.bindings, s.searchDirs, s.maxDepth, [], path⟩ path.text text).run files
    (s.expandFile path).run files = ⟨⟨[], path⟩ :: r.questions, r.result⟩ := by
  rw [expandFile, run_readFile_bind_of_ok h, context_eq]

/-- Where a path is text, a text is expanded under its name as at the path itself. -/
theorem expandText_of_isText (h : path.IsText) (s : Session) (text : Text) :
    s.expandText path.text text =
      Context.expand ⟨s.bindings, s.searchDirs, s.maxDepth, [], path⟩ path.text text := by
  obtain ⟨t, rfl⟩ := Path.isText_iff.1 h
  rw [expandText_eq, Path.text_mk]

theorem run_expandFile_of_error {g : ReadFailure} (h : files path = .error g) (s : Session) :
    (s.expandFile path).run files = ⟨[⟨[], path⟩], .error (.unreadable path g)⟩ :=
  run_readFile_bind_of_error h _

/-! ## One request -/

section Step

variable {s : Session} {request : Request} {b : Bindings}

/-- A request to load takes over what is loaded, and leaves the session as it is if that fails. -/
theorem step_load {x : Inquiry ExpandError Bindings} (h : s.answer request = s.adopt <$> x) (files : Files) :
    s.step files request =
      match (x.run files).result with
      | .ok b => ({ s with bindings := b }, ⟨(x.run files).questions, .ok (.loaded b.size)⟩)
      | .error e => (s, ⟨(x.run files).questions, .error e⟩) := by
  have hrun : (s.adopt <$> x).run files = ⟨(x.run files).questions, (x.run files).result.map s.adopt⟩ :=
    Inquiry.run_map files x s.adopt
  rw [step, h, hrun]
  cases (x.run files).result <;> rfl

/-- A request to expand leaves the session as it is. -/
theorem step_expand {x : Inquiry ExpandError Text}
    (h : s.answer request = (fun t => (s, Reply.expanded t)) <$> x) (files : Files) :
    s.step files request = (s, ⟨(x.run files).questions, (x.run files).result.map .expanded⟩) := by
  have hrun : ((fun t => (s, Reply.expanded t)) <$> x).run files =
      ⟨(x.run files).questions, (x.run files).result.map fun t => (s, Reply.expanded t)⟩ :=
    Inquiry.run_map files x _
  rw [step, h, hrun]
  cases (x.run files).result <;> rfl

/-- Bindings that are loaded take the place of those before. -/
theorem step_of_loads (h : request.Loads files b) (s : Session) :
    (s.step files request).1 = { s with bindings := b } ∧
      (s.step files request).2.result = .ok (.loaded b.size) := by
  cases h with
  | file hfile hparse =>
    rw [step_load rfl, run_loadFile_of_ok hfile, hparse]
    exact ⟨rfl, rfl⟩
  | text hparse =>
    rw [step_load rfl, run_loadText, hparse]
    exact ⟨rfl, rfl⟩

/-- Any other request leaves the session as it is, and if it is one to load, it fails. -/
theorem step_of_not_loads (h : ∀ b, ¬ request.Loads files b) (s : Session) :
    (s.step files request).1 = s ∧
      (request.IsLoad → ∃ err, (s.step files request).2.result = .error err) := by
  cases request with
  | loadFile path =>
    rw [step_load rfl]
    cases hfile : files path with
    | error g =>
      rw [run_loadFile_of_error hfile]
      exact ⟨rfl, fun _ => ⟨_, rfl⟩⟩
    | ok text =>
      cases hparse : Bindings.parse path.text text with
      | ok b => exact absurd (.file hfile hparse) (h b)
      | error e =>
        rw [run_loadFile_of_ok hfile, hparse]
        exact ⟨rfl, fun _ => ⟨_, rfl⟩⟩
  | loadText source text =>
    rw [step_load rfl]
    cases hparse : Bindings.parse source text with
    | ok b => exact absurd (.text hparse) (h b)
    | error e =>
      rw [run_loadText, hparse]
      exact ⟨rfl, fun _ => ⟨_, rfl⟩⟩
  | expandFile path =>
    rw [step_expand rfl]
    exact ⟨rfl, False.elim⟩
  | expandText source text =>
    rw [step_expand rfl]
    exact ⟨rfl, False.elim⟩

end Step

end Session

/-! ## Any number of events -/

section History

variable {files : Files} {es : List Event} {e : Event} {b : Bindings}

theorem filesAfter_concat (files : Files) (es : List Event) (e : Event) :
    filesAfter files (es ++ [e]) = match e with | .change after => after | .request _ => filesAfter files es := by
  rw [filesAfter, List.foldl_concat]
  rfl

theorem Situation.afterAll_concat (w : Situation) (es : List Event) (e : Event) :
    w.afterAll (es ++ [e]) = (w.afterAll es).after e := by
  rw [afterAll, List.foldl_concat, afterAll]

/-- What is loaded with one event more is loaded by those before it or by that one. -/
theorem loadsAt_concat_iff {n : Nat} : LoadsAt files (es ++ [e]) n b ↔
    LoadsAt files es n b ∨
      n = es.length ∧ ∃ request, e = .request request ∧ request.Loads (filesAfter files es) b := by
  rcases Nat.lt_trichotomy n es.length with hlt | rfl | hgt
  · rw [LoadsAt, LoadsAt, List.getElem?_append_left hlt, List.take_append_of_le_length (Nat.le_of_lt hlt)]
    exact ⟨.inl, fun h => h.resolve_right fun hn => Nat.ne_of_lt hlt hn.1⟩
  · have hnone : ¬ LoadsAt files es es.length b := by
      rintro ⟨request, hrequest, -⟩
      rw [List.getElem?_eq_none (Nat.le_refl _)] at hrequest
      cases hrequest
    rw [LoadsAt, List.getElem?_concat_length, List.take_left]
    constructor
    · rintro ⟨request, hrequest, hloads⟩
      exact .inr ⟨rfl, request, Option.some.inj hrequest, hloads⟩
    · rintro (hloads | ⟨-, request, rfl, hloads⟩)
      · exact absurd hloads hnone
      · exact ⟨request, rfl, hloads⟩
  · constructor
    · rintro ⟨request, hrequest, -⟩
      rw [List.getElem?_eq_none (by rw [List.length_append]; exact hgt)] at hrequest
      cases hrequest
    · rintro (⟨request, hrequest, -⟩ | ⟨hn, -⟩)
      · rw [List.getElem?_eq_none (Nat.le_of_lt hgt)] at hrequest
        cases hrequest
      · exact absurd hn (Nat.ne_of_gt hgt)

theorem LoadsAt.lt_length {n : Nat} (h : LoadsAt files es n b) : n < es.length := by
  obtain ⟨request, hrequest, -⟩ := h
  exact (List.getElem?_eq_some_iff.1 hrequest).1

/-- A load that succeeds is the last one. -/
theorem lastLoaded_of_loads {before : Bindings} {request : Session.Request}
    (h : request.Loads (filesAfter files es) b) :
    LastLoaded before files (es ++ [.request request]) b := by
  refine .inl ⟨es.length, loadsAt_concat_iff.2 (.inr ⟨rfl, request, rfl, h⟩), fun m hm b' hb' => ?_⟩
  have := hb'.lt_length
  rw [List.length_append, List.length_singleton] at this
  omega

/-- An event that loads nothing leaves the last load the last one. -/
theorem LastLoaded.concat {before : Bindings} (h : LastLoaded before files es b)
    (he : ∀ request, e = .request request → ∀ b', ¬ request.Loads (filesAfter files es) b') :
    LastLoaded before files (es ++ [e]) b := by
  have hold : ∀ m b', LoadsAt files (es ++ [e]) m b' → LoadsAt files es m b' := by
    intro m b' hb'
    refine (loadsAt_concat_iff.1 hb').resolve_right ?_
    rintro ⟨-, request, hrequest, hloads⟩
    exact he request hrequest b' hloads
  rcases h with ⟨n, hn, hlast⟩ | ⟨hnone, rfl⟩
  · exact .inl ⟨n, loadsAt_concat_iff.2 (.inl hn), fun m hm b' hb' => hlast m hm b' (hold m b' hb')⟩
  · exact .inr ⟨fun m b' hb' => hnone m b' (hold m b' hb'), rfl⟩

/-- After any events a session has the bindings that were loaded last, and its settings. -/
theorem Situation.afterAll_eq (s : Session) (files : Files) (es : List Event) :
    ∃ b, LastLoaded s.bindings files es b ∧
      (⟨s, files⟩ : Situation).afterAll es = ⟨⟨b, s.searchDirs, s.maxDepth⟩, filesAfter files es⟩ := by
  induction es using List.reverseRecOn with
  | nil => exact ⟨s.bindings, .inr ⟨fun m b' hb' => absurd hb'.lt_length (Nat.not_lt_zero m), rfl⟩, rfl⟩
  | append_singleton es e ih =>
    obtain ⟨b, hb, hsituation⟩ := ih
    rw [afterAll_concat, hsituation, filesAfter_concat]
    cases e with
    | change after => exact ⟨b, hb.concat nofun, rfl⟩
    | request request =>
      by_cases hloads : ∃ b', request.Loads (filesAfter files es) b'
      · obtain ⟨b', hb'⟩ := hloads
        refine ⟨b', lastLoaded_of_loads hb', ?_⟩
        rw [after, (Session.step_of_loads hb' _).1]
      · have hnot := not_exists.1 hloads
        refine ⟨b, hb.concat ?_, ?_⟩
        · rintro _ ⟨⟩
          exact hnot
        · rw [after, (Session.step_of_not_loads hnot _).1]

end History

/-! ## Main theorem -/

/-- Whatever happened to a session, it has the bindings that were loaded last, if any were, and the settings that it had
at first. A request that loads bindings puts them in the place of those before and is told their number; one that loads
none leaves the session as it is, and fails if it was to load some. To expand a text or a file is answered as by a new
session with these bindings and settings, which looks references up in these bindings, searches these directories and
opens as many files. A file that can be read is expanded as its text at its path, with the question for it in front;
where the path is text, that is as the session expands the text under the name of the path. -/
theorem session_after_history (s : Session) (files : Files) (es : List Event) :
    let w := (⟨s, files⟩ : Situation).afterAll es
    ∃ b, LastLoaded s.bindings files es b ∧
      let fresh : Session := { bindings := b, searchDirs := s.searchDirs, maxDepth := s.maxDepth }
      let context (root : Path) : Context := ⟨b, s.searchDirs, s.maxDepth, [], root⟩
      w = ⟨fresh, filesAfter files es⟩ ∧
      (∀ request b', request.Loads w.files b' →
        (w.session.step w.files request).1 = { fresh with bindings := b' } ∧
        (w.session.step w.files request).2.result = .ok (.loaded b'.size)) ∧
      (∀ request, (∀ b', ¬ request.Loads w.files b') → (w.session.step w.files request).1 = fresh ∧
        (request.IsLoad → ∃ err, (w.session.step w.files request).2.result = .error err)) ∧
      (∀ source text, let r := (fresh.expandText source text).run w.files
        w.session.step w.files (.expandText source text) = (fresh, ⟨r.questions, r.result.map .expanded⟩) ∧
        r = ((context ⟨source⟩).expand source text).run w.files) ∧
      ∀ path, let r := (fresh.expandFile path).run w.files
        w.session.step w.files (.expandFile path) = (fresh, ⟨r.questions, r.result.map .expanded⟩) ∧
        (∀ text, w.files path = .ok text →
          let r' := ((context path).expand path.text text).run w.files
          r = ⟨⟨[], path⟩ :: r'.questions, r'.result⟩ ∧
          (path.IsText → r' = (fresh.expandText path.text text).run w.files)) ∧
        ∀ g, w.files path = .error g → r = ⟨[⟨[], path⟩], .error (.unreadable path g)⟩ := by
  intro w
  obtain ⟨b, hb, hw⟩ := Situation.afterAll_eq s files es
  refine ⟨b, hb, hw, ?_⟩
  rw [show w = _ from hw]
  refine ⟨fun request b' h => Session.step_of_loads h _, fun request h => Session.step_of_not_loads h _,
    fun source text => ⟨Session.step_expand rfl _, by rw [Session.expandText_eq]⟩,
    fun path => ⟨Session.step_expand rfl _, fun text htext => ⟨?_, fun hpath => ?_⟩, fun g hg => ?_⟩⟩
  · exact Session.run_expandFile_of_ok htext _
  · rw [Session.expandText_of_isText hpath]
  · exact Session.run_expandFile_of_error hg _

/-- The file at a path that is no text is expanded beside the path. Its text, under the name that is shown of the path,
is expanded beside another, where there is no file to include. -/
theorem expandFile_ne_expandText :
    let path : Path := ⟨.char 'd' :: .stray [0xff] :: ("/main.in".toList : Text)⟩
    let included : Path := ⟨.char 'd' :: .stray [0xff] :: ("/x.inc".toList : Text)⟩
    let text := "$(include-file x.inc)".toList
    let files : Files := fun p =>
      if p = path then .ok text else if p = included then .ok "X".toList else .error ⟨.notFound, []⟩
    files path = .ok text ∧
      (({} : Session).expandFile path).run files = ⟨[⟨[], path⟩, ⟨[path], included⟩], .ok "X\n\n".toList⟩ ∧
      (({} : Session).expandText path.text text).run files =
        ⟨[⟨[⟨"d\ufffd/main.in".toList⟩], ⟨"d\ufffd/x.inc".toList⟩⟩],
          .error (.source ⟨⟨"d\ufffd/main.in".toList, ⟨1, 1⟩⟩, .includeNotFound "x.inc".toList⟩)⟩ := by
  decide +kernel

end TextTemplate

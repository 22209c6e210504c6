import TextTemplate.Proofs.Bindings.Map
import TextTemplate.Proofs.Inclusion.Pasting
import TextTemplate.Proofs.Template.Directives

/-!
# Bound text is put in as it is

What a name is bound to is never read again. In a flat text, where no name and no argument is spelled with a dollar
sign, the values decide nothing else: which files are read and how an expansion fails is settled by the texts and by
which names are bound, and the output is an outline that the texts make, in which each reference is filled with what
its name is bound to.

Main results:
* `Outlined.append`, `Outlined.ask`, `Outlined.mapError`: what has an outline, step by step.
* `Context.evalText_withBindings_outlined`: flat texts, with all that they include.
* `Context.expansion_verbatim`: the outline of an expansion, and how it is filled.
-/

namespace TextTemplate

/-! ## Specification -/

/-- A part that stands for itself. -/
def Part.IsText : Part → Prop
  | .text _ => True
  | .expansion _ => False

instance : DecidablePred Part.IsText
  | .text _ => isTrue trivial
  | .expansion _ => isFalse id

/-- No expansion stands in a name, nor in a word of a directive. -/
def Part.IsFlat : Part → Prop
  | .expansion (.reference _ name) => ∀ p ∈ name, p.IsText
  | .expansion (.directive _ words) => ∀ w ∈ words, ∀ p ∈ w, p.IsText
  | _ => True

instance : DecidablePred Part.IsFlat
  | .text _ | .expansion .dollar | .expansion .join | .expansion .comment => isTrue trivial
  | .expansion (.reference _ name) => inferInstanceAs (Decidable (∀ p ∈ name, p.IsText))
  | .expansion (.directive _ words) => inferInstanceAs (Decidable (∀ w ∈ words, ∀ p ∈ w, p.IsText))

/-- All references and directives of the text are flat. -/
def IsFlatText (s : Text) : Prop := ∀ p ∈ completeParts s, p.IsFlat

/-- The text that a part spells by itself. -/
def Part.spelled : Part → Text
  | .text t => t
  | .expansion _ => []

/-- The text that a word spells by itself. -/
def spelledBy (w : Word) : Text := w.flatMap Part.spelled

/-- A stretch of an output. -/
inductive Stretch where
  /-- A text that the templates themselves produce. -/
  | text (t : Text)
  /-- The place of a reference to a name. -/
  | reference (name : Text)
  deriving DecidableEq, Repr

/-- An output with the places of its references left open. -/
abbrev Outline := List Stretch

/-- A stretch with what its name is bound to in its place. -/
def Stretch.fill (b : Bindings) : Stretch → Text
  | .text t => t
  | .reference name => (b.get? name).getD []

/-- An outline with what the names are bound to in their places. -/
def Outline.fill (b : Bindings) (o : Outline) : Text := o.flatMap (Stretch.fill b)

mutual

/-- The outline of a flat part, whatever the bindings of the context: a reference is left open, and an include has the
    outline of the file that it resolves to. -/
inductive OutlineOfPart (files : Files) : Context → Part → Outline → Prop
  | text {c : Context} {t : Text} : OutlineOfPart files c (.text t) [.text t]
  | dollar {c : Context} : OutlineOfPart files c (.expansion .dollar) [.text ['$']]
  | join {c : Context} : OutlineOfPart files c (.expansion .join) []
  | comment {c : Context} : OutlineOfPart files c (.expansion .comment) []
  | reference {c : Context} {start : Text} {name : Word} :
      OutlineOfPart files c (.expansion (.reference start name)) [.reference (spelledBy name)]
  | nothing {c : Context} {start : Text} : OutlineOfPart files c (.expansion (.directive start [])) []
  | included {c : Context} {start file t : Text} {words : List Word} {p : Path} {o : Outline} :
      words.map spelledBy = [includeCommand, file] → c.Resolves files file p → files p = .ok t →
      OutlineOfText files (c.enter p) t o → OutlineOfPart files c (.expansion (.directive start words)) o

/-- The outline of flat parts, one after the other. -/
inductive OutlineOfParts (files : Files) : Context → List Part → Outline → Prop
  | nil {c : Context} : OutlineOfParts files c [] []
  | cons {c : Context} {p : Part} {ps : List Part} {o o' : Outline} : OutlineOfPart files c p o →
      OutlineOfParts files c ps o' → OutlineOfParts files c (p :: ps) (o ++ o')

/-- The outline of a flat text, line after line. -/
inductive OutlineOfText (files : Files) : Context → Text → Outline → Prop
  | nil {c : Context} : OutlineOfText files c [] []
  | elided {c : Context} {s r : Text} {o : Outline} : LineAt .elided s r → r ≠ s →
      OutlineOfText files c r o → OutlineOfText files c s o
  | content {c : Context} {s r indent : Text} {ps : List Part} {o o' : Outline} :
      LineAt (.content indent ps) s r → r ≠ s → OutlineOfParts files c ps o →
      OutlineOfText files c r o' →
      OutlineOfText files c s ([.text indent] ++ o ++ [.text ['\n']] ++ o')

end

theorem Outline.fill_append (b : Bindings) (o o' : Outline) :
    Outline.fill b (o ++ o') = o.fill b ++ o'.fill b := List.flatMap_append

theorem Outline.fill_text (b : Bindings) (t : Text) : Outline.fill b [.text t] = t := List.append_nil t

/-! ## Inquiries with an outline -/

/-- For all bindings of those names, the inquiry asks the same questions and fails alike, or it ends with one outline,
    which has `P`, filled from the bindings. -/
def Outlined {ε : Type} (files : Files) (names : List Text) (P : Outline → Prop)
    (x : Bindings → Inquiry ε Text) : Prop :=
  ∃ (questions : List Question) (result : Except ε Outline),
    (∀ o, result = .ok o → P o ∧ ∀ n, .reference n ∈ o → n ∈ names) ∧
    ∀ b : Bindings, b.names = names → (x b).run files = ⟨questions, result.map (·.fill b)⟩

namespace Outlined

variable {ε δ : Type} {files : Files} {names : List Text} {P Q R : Outline → Prop}
  {x y : Bindings → Inquiry ε Text}

theorem nil : Outlined files names (· = []) fun _ => (.pure [] : Inquiry ε Text) := by
  refine ⟨[], .ok [], fun o ho => ?_, fun b _ => rfl⟩
  cases ho
  exact ⟨rfl, by simp⟩

theorem text (t : Text) : Outlined files names (· = [.text t]) fun _ => (.pure t : Inquiry ε Text) := by
  refine ⟨[], .ok [.text t], fun o ho => ?_, fun b _ => ?_⟩
  · cases ho
    exact ⟨rfl, by simp⟩
  · rw [Except.map, Outline.fill_text]
    rfl

theorem fail (e : ε) : Outlined files names P fun _ => (.fail e : Inquiry ε Text) :=
  ⟨[], .error e, fun _ ho => (nomatch ho), fun _ _ => rfl⟩

theorem mono (hx : Outlined files names P x) (h : ∀ o, P o → Q o) : Outlined files names Q x := by
  obtain ⟨questions, result, hresult, hrun⟩ := hx
  exact ⟨questions, result, fun o ho => (hresult o ho).imp_left (h o), hrun⟩

theorem append (hx : Outlined files names P x) (hy : Outlined files names Q y)
    (h : ∀ o o', P o → Q o' → R (o ++ o')) :
    Outlined files names R fun b => (x b).bind fun t => (y b).bind fun u => .pure (t ++ u) := by
  obtain ⟨questions, result, hresult, hrun⟩ := hx
  obtain ⟨questions', result', hresult', hrun'⟩ := hy
  cases result with
  | error e =>
    refine ⟨questions, .error e, fun _ ho => (nomatch ho), fun b hb => ?_⟩
    rw [Inquiry.run_bind, hrun b hb]
    rfl
  | ok o =>
    obtain ⟨hP, hnames⟩ := hresult o rfl
    refine ⟨questions ++ questions', result'.map (o ++ ·), fun r hr => ?_, fun b hb => ?_⟩
    · obtain ⟨o', ho', rfl⟩ := exists_of_map_eq_ok hr
      obtain ⟨hQ, hnames'⟩ := hresult' o' ho'
      refine ⟨h o o' hP hQ, fun n hn => ?_⟩
      exact (List.mem_append.1 hn).elim (hnames n) (hnames' n)
    · rw [Inquiry.run_bind, hrun b hb]
      simp only [Except.map, Inquiry.run_map, hrun' b hb]
      cases result' <;> simp [Outline.fill_append]

/-- What stands before and behind an outline is in the outline too. -/
theorem surround (hx : Outlined files names P x) (t u : Text)
    (h : ∀ o, P o → R ([.text t] ++ o ++ [.text u])) :
    Outlined files names R fun b => (x b).bind fun v => .pure (t ++ v ++ u) := by
  have hbehind : Outlined files names (fun r => ∃ o, P o ∧ r = o ++ [.text u])
      fun b => (x b).bind fun v => (.pure u : Inquiry ε Text).bind fun w => .pure (v ++ w) :=
    hx.append (Outlined.text u) fun o o' ho ho' => ⟨o, ho, by rw [ho']⟩
  have hboth : Outlined files names R _ := (Outlined.text t).append hbehind (by
    rintro _ _ rfl ⟨o, ho, rfl⟩
    rw [← List.append_assoc]
    exact h o ho)
  simpa only [Inquiry.bind, Inquiry.bind_assoc, List.append_assoc] using hboth

/-- What fails in the end has an outline, whatever it comes to before. -/
theorem fails (hx : Outlined files names P x) (e : ε) :
    Outlined files names Q fun b => (x b).bind fun _ => (.fail e : Inquiry ε Text) := by
  obtain ⟨questions, result, -, hrun⟩ := hx
  cases result with
  | error e' =>
    refine ⟨questions, .error e', fun _ ho => (nomatch ho), fun b hb => ?_⟩
    rw [Inquiry.run_bind, hrun b hb]
    rfl
  | ok o =>
    refine ⟨questions, .error e, fun _ ho => (nomatch ho), fun b hb => ?_⟩
    rw [Inquiry.run_bind, hrun b hb]
    simp [Except.map]

theorem mapError (hx : Outlined files names P x) (f : ε → δ) :
    Outlined files names P fun b => (x b).mapError f := by
  obtain ⟨questions, result, hresult, hrun⟩ := hx
  refine ⟨questions, result.mapError f, fun o ho => ?_, fun b hb => ?_⟩
  · cases result with
    | ok o' => cases ho; exact hresult _ rfl
    | error e => cases ho
  · rw [Inquiry.run_mapError, hrun b hb]
    cases result <;> rfl

theorem ask {question : Question} {next : Bindings → Except ReadFailure Text → Inquiry ε Text}
    (h : Outlined files names P fun b => next b (files question.path)) :
    Outlined files names P fun b => .ask question (next b) := by
  obtain ⟨questions, result, hresult, hrun⟩ := h
  refine ⟨question :: questions, result, hresult, fun b hb => ?_⟩
  rw [Inquiry.run_ask, hrun b hb]

end Outlined

/-! ## Words -/

/-- Parts that are texts produce those, whatever references and directives stand for. -/
theorem evalParts_of_isText (m : Semantics) {ps : List Part} (h : ∀ p ∈ ps, p.IsText) :
    evalParts m ps = .pure (spelledBy ps) := by
  induction ps with
  | nil => rw [evalParts]; rfl
  | cons p ps ih =>
    obtain ⟨hp, hps⟩ := List.forall_mem_cons.1 h
    cases p with
    | expansion e => exact hp.elim
    | text t =>
      rw [evalParts_text, ih hps]
      rfl

theorem evalWords_of_isText (m : Semantics) {ws : List Word} (h : ∀ w ∈ ws, ∀ p ∈ w, p.IsText) :
    evalWords m ws = .pure (ws.map spelledBy) := by
  induction ws with
  | nil => rw [evalWords]; rfl
  | cons w ws ih =>
    obtain ⟨hw, hws⟩ := List.forall_mem_cons.1 h
    rw [evalWords, evalParts_of_isText m hw, ih hws]
    rfl

/-! ## References and directives -/

namespace Context

variable {files : Files} {e : Bindings → Expander} {c : Context} {names : List Text}

/-- The context with other bindings. -/
def withBindings (c : Context) (b : Bindings) : Context := { c with bindings := b }

/-- The outline of an include of the file. -/
def OutlineOfInclude (files : Files) (c : Context) (file : Text) (o : Outline) : Prop :=
  ∃ p t, c.Resolves files file p ∧ files p = .ok t ∧ OutlineOfText files (c.enter p) t o

/-- The outline of a directive with those words. -/
def OutlineOfDirective (files : Files) (c : Context) (words : List Text) (o : Outline) : Prop :=
  words = [] ∧ o = [] ∨ ∃ file, words = [includeCommand, file] ∧ c.OutlineOfInclude files file o

theorem lookUp_outlined (c : Context) (names : List Text) (u name : Text) :
    Outlined files names (· = [.reference name]) fun b => (c.withBindings b).lookUp u name := by
  by_cases hname : name ∈ names
  · refine ⟨[], .ok [.reference name], fun o ho => ?_, fun b hb => ?_⟩
    · cases ho
      exact ⟨rfl, by simpa using hname⟩
    · have hbound : b.get? name ≠ none := by
        rw [Ne, Bindings.get?_eq_none_iff, hb]
        exact not_not_intro hname
      obtain ⟨t, ht⟩ := Option.ne_none_iff_exists'.1 hbound
      simp [lookUp, withBindings, ht, Except.map, Outline.fill, Stretch.fill, pure]
  · refine ⟨[], .error (.here ⟨u, .undefinedVariable name (suggestions name names)⟩),
      fun o ho => ?_, fun b hb => ?_⟩
    · cases ho
    · have hfree : b.get? name = none := by
        rw [Bindings.get?_eq_none_iff, hb]
        exact hname
      simp only [lookUp, withBindings, hfree, hb]
      rfl

/-- A search has the outline of the file that it finds, if nothing was found before. -/
theorem includeFirst_outlined
    (he : ∀ p t, files p = .ok t →
      Outlined files names (OutlineOfText files (c.enter p) t) fun b => e b ((c.enter p).withBindings b) t)
    (u file : Text) (ps : List Path) :
    ∀ before, c.candidates ⟨file⟩ = before ++ ps →
      (∀ p ∈ before, ∃ g, files p = .error g ∧ g.kind = .notFound) →
      Outlined files names (c.OutlineOfInclude files file)
        fun b => (c.withBindings b).includeFirst (e b) u file ps := by
  induction ps with
  | nil => exact fun _ _ _ => .fail _
  | cons p ps ih =>
    intro before hbefore hmiss
    by_cases hp : c.OnStack p
    · have hstop : ∀ b, (c.withBindings b).includeFirst (e b) u file (p :: ps) =
          refuse u (.recursiveInclude (c.stack ++ [p])) := fun b => if_pos hp
      simp only [hstop]
      exact .fail _
    · have hask : ∀ b, (c.withBindings b).includeFirst (e b) u file (p :: ps) = .ask ⟨c.stack, p⟩ _ :=
        fun b => if_neg hp
      simp only [hask]
      refine Outlined.ask ?_
      cases hfile : files p with
      | ok t =>
        refine ((he p t hfile).mapError Failure.elsewhere).mono fun o ho => ?_
        exact ⟨p, t, ⟨before, ps, hbefore, hmiss⟩, hfile, ho⟩
      | error g =>
        simp only
        split_ifs with hkind
        · refine ih (before ++ [p]) (by rw [hbefore, List.append_assoc]; rfl) ?_
          rw [List.forall_mem_append, List.forall_mem_singleton]
          exact ⟨hmiss, g, hfile, hkind⟩
        · exact .fail _

theorem command_outlined
    (he : c.depth < c.maxDepth → ∀ p t, files p = .ok t →
      Outlined files names (OutlineOfText files (c.enter p) t) fun b => e b ((c.enter p).withBindings b) t)
    (u : Text) (words : List Text) :
    Outlined files names (c.OutlineOfDirective files words)
      fun b => (c.withBindings b).command ((c.withBindings b).within (e b)) u words := by
  rcases command_cases words with rfl | ⟨cause, -, hrefuse⟩ | ⟨file, hfile, rfl⟩
  · exact Outlined.nil.mono fun o ho => .inl ⟨rfl, ho⟩
  · simp only [hrefuse]
    exact .fail _
  · simp only [command_include _ _ u hfile]
    by_cases hd : c.depth < c.maxDepth
    · have hwithin : ∀ b, (c.withBindings b).within (e b) = some (e b) := fun b => if_pos hd
      simp only [hwithin]
      refine (includeFirst_outlined (he hd) u file (c.candidates ⟨file⟩) [] rfl (by simp)).mono ?_
      exact fun o ho => .inr ⟨file, rfl, ho⟩
    · have hwithin : ∀ b, (c.withBindings b).within (e b) = none := fun b => if_neg hd
      simp only [hwithin]
      exact .fail (Failure.here ⟨u, .depthExceeded c.maxDepth⟩)

end Context

/-! ## Flat texts -/

section Flat

variable {files : Files} {c : Context} {names : List Text} {m : Bindings → Semantics}

/-- References and directives have their outlines, for all bindings of those names. -/
structure Semantics.Outlined (files : Files) (c : Context) (names : List Text) (m : Bindings → Semantics) :
    Prop where
  /-- References are left open. -/
  reference : ∀ u name,
    TextTemplate.Outlined files names (· = [.reference name]) fun b => (m b).reference u name
  /-- Directives have the outlines of what they include. -/
  directive : ∀ u words,
    TextTemplate.Outlined files names (c.OutlineOfDirective files words) fun b => (m b).directive u words

theorem Part.eval_outlined (hm : Semantics.Outlined files c names m) {p : Part} (hp : p.IsFlat) :
    Outlined files names (OutlineOfPart files c p) fun b => p.eval (m b) := by
  cases p with
  | text t => exact (Outlined.text t).mono fun o ho => ho ▸ .text
  | expansion e =>
    cases e with
    | dollar => exact (Outlined.text ['$']).mono fun o ho => ho ▸ .dollar
    | join => exact Outlined.nil.mono fun o ho => ho ▸ .join
    | comment => exact Outlined.nil.mono fun o ho => ho ▸ .comment
    | reference start name =>
      have hname := fun m => evalParts_of_isText m hp
      simp only [Part.eval, Expansion.eval, hname]
      exact (hm.reference start (spelledBy name)).mono fun o ho => ho ▸ .reference
    | directive start words =>
      have hwords := fun m => evalWords_of_isText m hp
      simp only [Part.eval, Expansion.eval, hwords]
      refine (hm.directive start (words.map spelledBy)).mono ?_
      rintro o (⟨hnil, rfl⟩ | ⟨file, hinclude, p, t, hresolves, hfile, ho⟩)
      · rw [List.map_eq_nil_iff.1 hnil]
        exact .nothing
      · exact .included hinclude hresolves hfile ho

theorem evalParts_outlined (hm : Semantics.Outlined files c names m) {ps : List Part}
    (h : ∀ p ∈ ps, p.IsFlat) :
    Outlined files names (OutlineOfParts files c ps) fun b => evalParts (m b) ps := by
  induction ps with
  | nil =>
    simp only [evalParts]
    exact Outlined.nil.mono fun o ho => ho ▸ .nil
  | cons p ps ih =>
    obtain ⟨hp, hps⟩ := List.forall_mem_cons.1 h
    simp only [evalParts_cons]
    exact (Part.eval_outlined hm hp).append (ih hps) fun o o' ho ho' => .cons ho ho'

theorem Template.eval_outlined (hm : Semantics.Outlined files c names m) {ls : Template} {s : Text}
    (hls : ls.Derives s) (h : ∀ p ∈ ls.flatMap Line.parts, p.IsFlat) :
    Outlined files names (OutlineOfText files c s) fun b => Template.eval (m b) ls := by
  induction hls with
  | nil => exact Outlined.nil.mono fun o ho => ho ▸ .nil
  | cons hl hne hls ih =>
    rename_i l ls
    rw [List.flatMap_cons, List.forall_mem_append] at h
    simp only [Template.eval_cons]
    cases l with
    | elided =>
      refine Outlined.nil.append (ih h.2) ?_
      rintro _ o rfl ho
      exact .elided hl hne ho
    | content indent ps =>
      have hline : Outlined files names
          (fun r => ∃ o, OutlineOfParts files c ps o ∧ r = [.text indent] ++ o ++ [.text ['\n']])
          fun b => (Line.content indent ps).eval (m b) :=
        (evalParts_outlined hm h.1).surround indent ['\n'] fun o ho => ⟨o, ho, rfl⟩
      refine hline.append (ih h.2) ?_
      rintro _ o' ⟨o, ho, rfl⟩ ho'
      exact .content hl hne ho ho'

/-- A flat text has its outline if its references and directives do. -/
theorem evalText_outlined (hm : Semantics.Outlined files c names m) {s : Text} (hs : IsFlatText s) :
    Outlined files names (OutlineOfText files c s) fun b => evalText (m b) s := by
  unfold IsFlatText completeParts at hs
  cases ht : Template.read s with
  | ok ls =>
    rw [ht] at hs
    simp only [evalText, ht]
    exact Template.eval_outlined hm (Template.read_eq_ok_iff.1 ht) hs
  | error t =>
    rw [ht] at hs
    simp only [evalText, ht, Truncation.eval_eq]
    exact (evalParts_outlined hm hs).fails _

end Flat

/-! ## Expansions -/

namespace Context

/-- A flat text has its outline, with all that it includes. -/
theorem evalText_withBindings_outlined {files : Files} (hfiles : ∀ p t, files p = .ok t → IsFlatText t)
    (c : Context) (names : List Text) {s : Text} (hs : IsFlatText s) :
    Outlined files names (OutlineOfText files c s) fun b => evalText (c.withBindings b).meaning s := by
  have hincluded : c.depth < c.maxDepth → ∀ p t, files p = .ok t →
      Outlined files names (OutlineOfText files (c.enter p) t)
        fun b => expandIncluded ((c.enter p).withBindings b) t := by
    intro hd p t hp
    have ih := evalText_withBindings_outlined hfiles (c.enter p) names (hfiles p t hp)
    simp only [expandIncluded, expand_eq_eval]
    exact ih.mapError (Failure.inSource p.text t)
  exact evalText_outlined ⟨lookUp_outlined c names, command_outlined hincluded⟩ hs
termination_by c.levelsLeft
decreasing_by exact levelsLeft_enter_lt hd p

/-! ## Main theorem -/

/-- Where the text and all files are flat, an expansion depends on its bindings only by their names, but for the places
    of its references: the names settle which files are read and whether and how it fails. If it does not, the output
    is the outline that the texts make, with every reference in it filled with what its name is bound to, as it is. -/
theorem expansion_verbatim (c : Context) {files : Files} (hfiles : ∀ p t, files p = .ok t → IsFlatText t)
    {s : Text} (hs : IsFlatText s) (source : Text) :
    ∃ (questions : List Question) (result : Except ExpandError Outline),
      (∀ o, result = .ok o →
        OutlineOfText files c s o ∧ ∀ n, .reference n ∈ o → n ∈ c.bindings.names) ∧
      ∀ b : Bindings, (∀ n, n ∈ b.names ↔ n ∈ c.bindings.names) →
        (expand { c with bindings := b } source s).run files = ⟨questions, result.map (·.fill b)⟩ := by
  have heval := evalText_withBindings_outlined hfiles c c.bindings.names hs
  obtain ⟨questions, result, hresult, hrun⟩ := heval.mapError (Failure.inSource source s)
  refine ⟨questions, result, hresult, fun b hb => ?_⟩
  rw [← hrun b (Bindings.names_eq_of_mem_iff hb), expand_eq_eval]
  rfl

/-- A value with a directive and a reference in it, where a file is included that refers to it too. -/
theorem expansion_verbatim_directive :
    IsFlatText "$\x7ba\x7d$(include-file f)".toList ∧
    (∀ p t, (FileTable.ofList [(⟨"f".toList⟩, .ok "$\x7ba\x7d".toList)]).read p = .ok t → IsFlatText t) ∧
    ∃ o : Outline,
      OutlineOfText (FileTable.ofList [(⟨"f".toList⟩, .ok "$\x7ba\x7d".toList)]).read
        (ofRoot (.ofList [("a".toList, "1".toList)]) ⟨"r".toList⟩) "$\x7ba\x7d$(include-file f)".toList o ∧
      o.fill (.ofList [("a".toList, "1".toList)]) = "11\n\n".toList ∧
      (expand (ofRoot (.ofList [("a".toList, "$(b '$\x7ba\x7d\n".toList)]) ⟨"r".toList⟩) "r".toList
        "$\x7ba\x7d$(include-file f)".toList).run
          (FileTable.ofList [(⟨"f".toList⟩, .ok "$\x7ba\x7d".toList)]).read =
        ⟨[⟨[⟨"r".toList⟩], ⟨"f".toList⟩⟩],
          .ok (o.fill (.ofList [("a".toList, "$(b '$\x7ba\x7d\n".toList)]))⟩ := by
  obtain ⟨files, hfiles⟩ : ∃ files, files =
    (FileTable.ofList [(⟨"f".toList⟩, .ok "$\x7ba\x7d".toList)]).read := ⟨_, rfl⟩
  have hs : IsFlatText "$\x7ba\x7d$(include-file f)".toList := by
    rw [IsFlatText]
    decide +kernel
  have hflat : ∀ p t, files p = .ok t → IsFlatText t := by
    rw [hfiles]
    intro p t h
    obtain ⟨q, hq⟩ := FileTable.exists_mem_of_read h
    cases List.mem_singleton.1 hq
    rw [IsFlatText]
    decide +kernel
  have hrun : (expand (ofRoot (.ofList [("a".toList, "1".toList)]) ⟨"r".toList⟩) "r".toList
      "$\x7ba\x7d$(include-file f)".toList).run files =
        ⟨[⟨[⟨"r".toList⟩], ⟨"f".toList⟩⟩], .ok "11\n\n".toList⟩ := by
    rw [hfiles]
    decide +kernel
  rw [← hfiles]
  refine ⟨hs, hflat, ?_⟩
  obtain ⟨questions, result, hresult, hverbatim⟩ := expansion_verbatim
    (ofRoot (.ofList [("a".toList, "1".toList)]) ⟨"r".toList⟩) hflat hs "r".toList
  have hone := hverbatim (.ofList [("a".toList, "1".toList)]) fun _ => .rfl
  have hother := hverbatim (.ofList [("a".toList, "$(b '$\x7ba\x7d\n".toList)]) fun _ => .rfl
  have hend := hrun.symm.trans hone
  cases result with
  | error err => cases hend
  | ok o =>
    obtain ⟨hquestions, hfill⟩ := Inquiry.Run.mk.inj hend
    rw [← hquestions] at hother
    exact ⟨o, (hresult o rfl).1, (Except.ok.inj hfill).symm, hother⟩

end Context

end TextTemplate

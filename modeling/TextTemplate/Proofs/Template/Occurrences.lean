import TextTemplate.Proofs.Template.Evaluation

/-!
# The expansions of a text

Expansions stand in the lines of a text, in the words of directives and in the names of references. Whatever is seen of
the run of a text, such as a question or a failure, is seen of its fault, or of what one of these references and
directives does once its own words are evaluated. Each of them stands in the text just where it starts.

Main results:
* `StandsIn.expansionAt`: where an expansion of a text stands.
* `evalParts_seenAt`, `Template.eval_seenAt`: the events of parts and templates.
* `evalText_seenAt`: those of whole texts.
-/

namespace TextTemplate

/-! ## Specification -/

/-- The complete parts of a text, up to its end or to its fault. -/
def completeParts (s : Text) : List Part :=
  match Template.read s with
  | .ok ls => ls.flatMap Line.parts
  | .error t => t.before

/-- The expansion is one of the parts, or stands in the name of a reference or in a word of a directive. -/
inductive StandsIn (e : Expansion) : List Part → Prop
  | here {ps : List Part} : .expansion e ∈ ps → StandsIn e ps
  | reference {ps : List Part} {start : Text} {name : List Part} :
      .expansion (.reference start name) ∈ ps → StandsIn e name → StandsIn e ps
  | directive {ps : List Part} {start : Text} {words : List (List Part)} {w : List Part} :
      .expansion (.directive start words) ∈ ps → w ∈ words → StandsIn e w → StandsIn e ps

/-- What may be seen of a run: not that it ends well, and of what goes on it is seen of the first run or of the
    second. -/
structure Inquiry.IsEvent {ε : Type} (files : Files) (E : ∀ {α : Type}, Inquiry ε α → Prop) : Prop where
  /-- Nothing is seen of a result. -/
  pure {α : Type} (a : α) : ¬ E (.pure a)
  /-- What is seen of both is seen of one. -/
  bind {α β : Type} {x : Inquiry ε α} {f : α → Inquiry ε β} :
    E (x.bind f) → E x ∨ ∃ a, (x.run files).result = .ok a ∧ E (f a)

/-- The words of the reference or directive come to texts, and the event is seen of what it does with them. -/
inductive Semantics.SeenAt (files : Files) (E : ∀ {α : Type}, Inquiry Failure α → Prop) (m : Semantics) :
    Expansion → Prop
  | reference {start t : Text} {name : List Part} : ((evalParts m name).run files).result = .ok t →
      E (m.reference start t) → SeenAt files E m (.reference start name)
  | directive {start : Text} {ts : List Text} {words : List (List Part)} :
      ((evalWords m words).run files).result = .ok ts → E (m.directive start ts) →
      SeenAt files E m (.directive start words)

/-! ## Where expansions stand -/

namespace StandsIn

variable {e : Expansion} {ps qs : List Part}

theorem mono (h : StandsIn e ps) (hsub : ps ⊆ qs) : StandsIn e qs := by
  cases h with
  | here he => exact .here (hsub he)
  | reference he hname => exact .reference (hsub he) hname
  | directive he hw hword => exact .directive (hsub he) hw hword

theorem left (h : StandsIn e ps) : StandsIn e (ps ++ qs) := h.mono (List.subset_append_left _ _)

theorem right (h : StandsIn e qs) : StandsIn e (ps ++ qs) := h.mono (List.subset_append_right _ _)

/-- What stands in parts that stand in a text stands in the text. -/
theorem expansionAt_of_placedIn (h : StandsIn e ps) {s : Text} (hs : PlacedIn s ps) :
    ∃ u r, u <:+ s ∧ ExpansionAt e u r := by
  induction h generalizing s with
  | here he => exact hs e he
  | reference he _ ih =>
    obtain ⟨u, r, hu, hexpansion⟩ := hs _ he
    cases hexpansion with
    | reference hname =>
      exact ih (hname.placedIn.mono ((suffix_cons_of _ (List.suffix_cons _ _)).trans hu))
  | directive he hw _ ih =>
    obtain ⟨u, r, hu, hexpansion⟩ := hs _ he
    cases hexpansion with
    | @directive g t _ _ _ _ hwords _ =>
      have ht : t <:+ '$' :: '(' :: (g ++ t) := suffix_cons_of _ (suffix_cons_of _ (List.suffix_append _ _))
      exact ih ((hwords.placedIn _ hw).mono (ht.trans hu))

/-- An expansion of a text stands in it. -/
theorem expansionAt {s : Text} (h : StandsIn e (completeParts s)) : ∃ u r, u <:+ s ∧ ExpansionAt e u r := by
  refine h.expansionAt_of_placedIn ?_
  unfold completeParts
  split
  · rename_i ls hls
    exact (Template.read_eq_ok_iff.1 hls).placedIn
  · rename_i t ht
    exact ((Template.read_yields s).of_error ht).placed

end StandsIn

/-! ## Events of runs -/

namespace Inquiry

variable {ε : Type}

/-- That a question is asked. -/
theorem isEvent_question (files : Files) (q : Question) :
    IsEvent files fun {α} (x : Inquiry ε α) => q ∈ (x.run files).questions where
  pure a := List.not_mem_nil
  bind := by
    intro α β x f hq
    cases hx : (x.run files).result with
    | ok a =>
      rw [run_bind_ok hx] at hq
      exact (List.mem_append.1 hq).imp_right fun h => ⟨a, rfl, h⟩
    | error e =>
      rw [run_bind_error hx] at hq
      exact .inl hq

/-- That it fails in a certain way. -/
theorem isEvent_failure (files : Files) (e : ε) :
    IsEvent files fun {α} (x : Inquiry ε α) => (x.run files).result = .error e where
  pure a := nofun
  bind := by
    intro α β x f he
    cases hx : (x.run files).result with
    | ok a =>
      rw [run_bind_ok hx] at he
      exact .inr ⟨a, rfl, he⟩
    | error e' =>
      rw [run_bind_error hx] at he
      cases he
      exact .inl rfl

end Inquiry

/-! ## Parts -/

section Events

variable {files : Files} {E : ∀ {α : Type}, Inquiry Failure α → Prop} {m : Semantics}

mutual

theorem Expansion.eval_seenAt (hE : Inquiry.IsEvent files E) (e : Expansion) (h : E (e.eval m)) :
    ∃ e', StandsIn e' [.expansion e] ∧ m.SeenAt files E e' := by
  cases e with
  | dollar => exact absurd h (hE.pure _)
  | join => exact absurd h (hE.pure _)
  | comment => exact absurd h (hE.pure _)
  | reference start name =>
    rcases hE.bind h with hname | ⟨t, ht, hlook⟩
    · obtain ⟨e', he', hseen⟩ := evalParts_seenAt hE name hname
      exact ⟨e', .reference List.mem_cons_self he', hseen⟩
    · exact ⟨_, .here List.mem_cons_self, .reference ht hlook⟩
  | directive start words =>
    rcases hE.bind h with hwords | ⟨ts, hts, hcommand⟩
    · obtain ⟨w, hw, e', he', hseen⟩ := evalWords_seenAt hE words hwords
      exact ⟨e', .directive List.mem_cons_self hw he', hseen⟩
    · exact ⟨_, .here List.mem_cons_self, .directive hts hcommand⟩

theorem Part.eval_seenAt (hE : Inquiry.IsEvent files E) (p : Part) (h : E (p.eval m)) :
    ∃ e, StandsIn e [p] ∧ m.SeenAt files E e := by
  cases p with
  | text t => exact absurd h (hE.pure _)
  | expansion e => exact Expansion.eval_seenAt hE e h

theorem evalParts_seenAt (hE : Inquiry.IsEvent files E) (ps : List Part) (h : E (evalParts m ps)) :
    ∃ e, StandsIn e ps ∧ m.SeenAt files E e := by
  cases ps with
  | nil => exact absurd h (hE.pure _)
  | cons p ps =>
    rcases hE.bind h with hp | ⟨t, -, h⟩
    · obtain ⟨e, he, hseen⟩ := Part.eval_seenAt hE p hp
      exact ⟨e, he.left, hseen⟩
    · rcases hE.bind h with hps | ⟨u, -, h⟩
      · obtain ⟨e, he, hseen⟩ := evalParts_seenAt hE ps hps
        exact ⟨e, he.mono (List.subset_cons_self _ _), hseen⟩
      · exact absurd h (hE.pure _)

theorem evalWords_seenAt (hE : Inquiry.IsEvent files E) (ws : List (List Part)) (h : E (evalWords m ws)) :
    ∃ w ∈ ws, ∃ e, StandsIn e w ∧ m.SeenAt files E e := by
  cases ws with
  | nil => exact absurd h (hE.pure _)
  | cons w ws =>
    rcases hE.bind h with hw | ⟨t, -, h⟩
    · exact ⟨w, List.mem_cons_self, evalParts_seenAt hE w hw⟩
    · rcases hE.bind h with hws | ⟨us, -, h⟩
      · obtain ⟨w', hw', hseen⟩ := evalWords_seenAt hE ws hws
        exact ⟨w', List.mem_cons_of_mem _ hw', hseen⟩
      · exact absurd h (hE.pure _)

end

/-! ## Templates and texts -/

theorem Line.eval_seenAt (hE : Inquiry.IsEvent files E) (l : Line) (h : E (l.eval m)) :
    ∃ e, StandsIn e l.parts ∧ m.SeenAt files E e := by
  cases l with
  | elided => exact absurd h (hE.pure _)
  | content indent ps =>
    rcases hE.bind h with hps | ⟨t, -, h⟩
    · exact evalParts_seenAt hE ps hps
    · exact absurd h (hE.pure _)

theorem Template.eval_seenAt (hE : Inquiry.IsEvent files E) (ls : Template) (h : E (Template.eval m ls)) :
    ∃ e, StandsIn e (ls.flatMap Line.parts) ∧ m.SeenAt files E e := by
  induction ls with
  | nil => exact absurd h (hE.pure _)
  | cons l ls ih =>
    rw [List.flatMap_cons]
    rcases hE.bind h with hl | ⟨t, -, h⟩
    · obtain ⟨e, he, hseen⟩ := Line.eval_seenAt hE l hl
      exact ⟨e, he.left, hseen⟩
    · rcases hE.bind h with hls | ⟨u, -, h⟩
      · obtain ⟨e, he, hseen⟩ := ih hls
        exact ⟨e, he.right, hseen⟩
      · exact absurd h (hE.pure _)

/-- What is seen of the run of a text, and not of its fault, is seen at one of its references or directives. -/
theorem evalText_seenAt (hE : Inquiry.IsEvent files E)
    (hfault : ∀ f : Fault, ¬ E (.fail (.here f.defect) : Inquiry Failure Text)) {s : Text}
    (h : E (evalText m s)) : ∃ e, StandsIn e (completeParts s) ∧ m.SeenAt files E e := by
  unfold completeParts
  cases hs : Template.read s with
  | ok ls =>
    rw [evalText, hs] at h
    exact Template.eval_seenAt hE ls h
  | error t =>
    rw [evalText, hs] at h
    rcases hE.bind h with hbefore | ⟨u, -, hfail⟩
    · exact evalParts_seenAt hE t.before hbefore
    · exact absurd hfail (hfault t.fault)

end Events

end TextTemplate

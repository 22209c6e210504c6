import TextTemplate.Proofs.Template.Grammar

/-!
# Where expansions stand

References and directives carry the text from their dollar sign on. In a derivation these texts are what
the derived text leaves at its dollar signs, each before what follows the derivation.

Main results:
* `ExpansionAt.starts`, `WordAt.starts`, `PiecesAt.starts`, `LineAt.starts`: the dollar signs of a tree are
  dollar signs of the text that it is derived from.
* `WordAt.placedIn`, `LineAt.placedIn`, `Template.Derives.placedIn`: its expansions stand there.
-/

namespace TextTemplate

/-! ## The dollar signs of a tree -/

mutual

/-- What the references and directives in an expansion carry, outer ones first. -/
def Expansion.starts : Expansion → List Text
  | .dollar => []
  | .join => []
  | .comment => []
  | .reference start name => start :: startsOfParts name
  | .directive start words => start :: startsOfWords words

/-- What the references and directives in a part carry. -/
def Part.starts : Part → List Text
  | .text _ => []
  | .expansion e => e.starts

/-- What the references and directives in parts carry. -/
def startsOfParts : List Part → List Text
  | [] => []
  | p :: ps => p.starts ++ startsOfParts ps

/-- What the references and directives in words carry. -/
def startsOfWords : List (List Part) → List Text
  | [] => []
  | w :: ws => startsOfParts w ++ startsOfWords ws

end

theorem startsOfParts_append (ps qs : List Part) :
    startsOfParts (ps ++ qs) = startsOfParts ps ++ startsOfParts qs := by
  induction ps with
  | nil => simp [startsOfParts]
  | cons p ps ih => simp [startsOfParts, ih]

/-- At a dollar sign of `s` the text `u` is left, and `r` lies behind that dollar sign. -/
def DollarBefore (s r u : Text) : Prop := u <:+ s ∧ ∃ v, u = '$' :: v ∧ r <:+ v

namespace DollarBefore

theorem mono {s s' r r' u : Text} (h : DollarBefore s r u) (hs : s <:+ s') (hr : r' <:+ r) :
    DollarBefore s' r' u := by
  obtain ⟨hu, v, rfl, hv⟩ := h
  exact ⟨hu.trans hs, v, rfl, hr.trans hv⟩

theorem front {v r : Text} (h : r <:+ v) : DollarBefore ('$' :: v) r ('$' :: v) :=
  ⟨List.suffix_rfl, v, rfl, h⟩

end DollarBefore

/-! ## The dollar signs of a derivation -/

mutual

/-- What follows an expansion lies behind its dollar sign, and its references and directives start in
    between. -/
theorem ExpansionAt.starts {e : Expansion} {s r : Text} (h : ExpansionAt e s r) :
    (∃ v, s = '$' :: v ∧ r <:+ v) ∧ ∀ u ∈ e.starts, DollarBefore s r u := by
  cases h with
  | dollar => exact ⟨⟨_, rfl, List.suffix_cons _ _⟩, by simp [Expansion.starts]⟩
  | join => exact ⟨⟨_, rfl, List.suffix_cons _ _⟩, by simp [Expansion.starts]⟩
  | comment h =>
    exact ⟨⟨_, rfl, suffix_cons_of _ (suffix_cons_of _ h.suffix)⟩, by simp [Expansion.starts]⟩
  | reference h =>
    rename_i s w
    obtain ⟨hr, hw⟩ := h.starts
    have hr' : r <:+ s := (List.suffix_cons _ _).trans hr
    refine ⟨⟨_, rfl, suffix_cons_of _ hr'⟩, ?_⟩
    intro u hu
    rw [Expansion.starts, List.mem_cons] at hu
    rcases hu with rfl | hu
    · exact .front (suffix_cons_of _ hr')
    · exact (hw u hu).mono (suffix_cons_of _ (List.suffix_cons _ _)) (List.suffix_cons _ _)
  | directive _ h _ =>
    rename_i g s g' ws _ _
    obtain ⟨hr, hw⟩ := h.starts
    have hg : r <:+ g' ++ ')' :: r := (List.suffix_cons _ _).trans (List.suffix_append _ _)
    have hs : s <:+ '(' :: (g ++ s) := suffix_cons_of _ (List.suffix_append _ _)
    refine ⟨⟨_, rfl, (hg.trans hr).trans hs⟩, ?_⟩
    intro u hu
    rw [Expansion.starts, List.mem_cons] at hu
    rcases hu with rfl | hu
    · exact .front ((hg.trans hr).trans hs)
    · exact (hw u hu).mono (suffix_cons_of _ hs) hg

theorem PartAt.starts {p : Part} {s r : Text} (h : PartAt p s r) :
    r <:+ s ∧ ∀ u ∈ p.starts, DollarBefore s r u := by
  cases h with
  | bareword h _ => exact ⟨h.suffix, by simp [Part.starts]⟩
  | quoted _ _ =>
    refine ⟨?_, by simp [Part.starts]⟩
    exact suffix_cons_of _ ((List.suffix_cons _ _).trans (List.suffix_append _ _))
  | expansion h =>
    obtain ⟨⟨v, rfl, hr⟩, hu⟩ := h.starts
    exact ⟨suffix_cons_of _ hr, hu⟩

theorem WordAt.starts {w : Word} {s r : Text} (h : WordAt w s r) :
    r <:+ s ∧ ∀ u ∈ startsOfParts w, DollarBefore s r u := by
  cases h with
  | last h _ =>
    obtain ⟨hr, hu⟩ := h.starts
    exact ⟨hr, by simpa [startsOfParts] using hu⟩
  | cons h k =>
    obtain ⟨hv, hp⟩ := h.starts
    obtain ⟨hr, hw⟩ := k.starts
    refine ⟨hr.trans hv, ?_⟩
    intro u hu
    rw [startsOfParts, List.mem_append] at hu
    rcases hu with hu | hu
    · exact (hp u hu).mono List.suffix_rfl hr
    · exact (hw u hu).mono hv List.suffix_rfl

theorem WordsAt.starts {ws : List Word} {s r : Text} (h : WordsAt ws s r) :
    r <:+ s ∧ ∀ u ∈ startsOfWords ws, DollarBefore s r u := by
  cases h with
  | nil => exact ⟨List.suffix_rfl, by simp [startsOfWords]⟩
  | last h =>
    obtain ⟨hr, hu⟩ := h.starts
    exact ⟨hr, by simpa [startsOfWords] using hu⟩
  | cons h _ _ k =>
    rename_i g v w v' ws _ _
    obtain ⟨hv, hp⟩ := h.starts
    obtain ⟨hr, hw⟩ := k.starts
    have hv' : v <:+ s := (List.suffix_append _ _).trans hv
    refine ⟨hr.trans hv', ?_⟩
    intro u hu
    rw [startsOfWords, List.mem_append] at hu
    rcases hu with hu | hu
    · exact (hp u hu).mono List.suffix_rfl (hr.trans (List.suffix_append _ _))
    · exact (hw u hu).mono hv' List.suffix_rfl

end

theorem PieceAt.starts {p : Part} {s r : Text} (h : PieceAt p s r) :
    r <:+ s ∧ ∀ u ∈ p.starts, DollarBefore s r u := by
  cases h with
  | literal h _ => exact ⟨h.suffix, by simp [Part.starts]⟩
  | expansion h =>
    obtain ⟨⟨v, rfl, hr⟩, hu⟩ := h.starts
    exact ⟨suffix_cons_of _ hr, hu⟩

theorem PiecesAt.starts {ps : List Part} {s r : Text} (h : PiecesAt ps s r) :
    r <:+ s ∧ ∀ u ∈ startsOfParts ps, DollarBefore s r u := by
  induction h with
  | nil => exact ⟨List.suffix_rfl, by simp [startsOfParts]⟩
  | cons h _ ih =>
    obtain ⟨hv, hp⟩ := h.starts
    refine ⟨ih.1.trans hv, ?_⟩
    intro u hu
    rw [startsOfParts, List.mem_append] at hu
    rcases hu with hu | hu
    · exact (hp u hu).mono List.suffix_rfl ih.1
    · exact (ih.2 u hu).mono hv List.suffix_rfl

theorem LineEndAt.suffix {s r : Text} (h : LineEndAt s r) : r <:+ s := by
  cases h with
  | newline => exact List.suffix_cons _ _
  | endOfText => exact List.suffix_rfl

theorem suffix_of_comment (b s : Text) : s <:+ b ++ '$' :: '-' :: '-' :: s :=
  (suffix_cons_of _ (suffix_cons_of _ (List.suffix_cons _ _))).trans (List.suffix_append _ _)

theorem LineAt.starts {l : Line} {s r : Text} (h : LineAt l s r) :
    r <:+ s ∧ ∀ u ∈ startsOfParts l.parts, DollarBefore s r u := by
  cases h with
  | elided _ h k =>
    refine ⟨?_, by simp [Line.parts, startsOfParts]⟩
    exact (k.suffix.trans h.suffix).trans (suffix_of_comment _ _)
  | content h _ k e =>
    obtain ⟨hv, hu⟩ := k.starts
    refine ⟨(e.suffix.trans hv).trans h.suffix, ?_⟩
    intro u hu'
    exact (hu u hu').mono h.suffix e.suffix

theorem LineAt.ne_nil {l : Line} {s r : Text} (h : LineAt l s r) (hne : r ≠ s) : s ≠ [] := by
  rintro rfl
  exact hne (List.suffix_nil.1 h.starts.1)

/-! ## The expansions of a derivation -/

/-- The expansions among the parts stand somewhere in the text. -/
def PlacedIn (s : Text) (ps : List Part) : Prop :=
  ∀ e, .expansion e ∈ ps → ∃ u r, u <:+ s ∧ ExpansionAt e u r

namespace PlacedIn

variable {s s' : Text} {ps qs : List Part}

theorem nil (s : Text) : PlacedIn s [] := by
  intro e he
  cases he

theorem mono (h : PlacedIn s ps) (hs : s <:+ s') : PlacedIn s' ps := by
  intro e he
  obtain ⟨u, r, hu, hexpansion⟩ := h e he
  exact ⟨u, r, hu.trans hs, hexpansion⟩

theorem append (h : PlacedIn s ps) (k : PlacedIn s qs) : PlacedIn s (ps ++ qs) :=
  fun e he => (List.mem_append.1 he).elim (h e) (k e)

end PlacedIn

theorem ExpansionAt.placedIn {e : Expansion} {s r : Text} (h : ExpansionAt e s r) : PlacedIn s [.expansion e] := by
  intro e' he'
  cases List.mem_singleton.1 he'
  exact ⟨s, r, List.suffix_rfl, h⟩

theorem placedIn_text (s t : Text) : PlacedIn s [.text t] := by
  intro e he
  cases List.mem_singleton.1 he

theorem PartAt.placedIn {p : Part} {s r : Text} (h : PartAt p s r) : PlacedIn s [p] := by
  cases h with
  | bareword => exact placedIn_text _ _
  | quoted => exact placedIn_text _ _
  | expansion he => exact he.placedIn

theorem WordAt.placedIn : ∀ {w : Word} {s r : Text}, WordAt w s r → PlacedIn s w
  | _, _, _, .last hp _ => hp.placedIn
  | _, _, _, .cons hp hw => hp.placedIn.append (hw.placedIn.mono hp.starts.1)

theorem WordsAt.placedIn : ∀ {ws : List Word} {s r : Text}, WordsAt ws s r → ∀ w ∈ ws, PlacedIn s w
  | _, _, _, .nil => by simp
  | _, _, _, .last hw => by simpa using hw.placedIn
  | _, _, _, .cons hw _ _ hws =>
    List.forall_mem_cons.2 ⟨hw.placedIn, fun w' hw' =>
      (hws.placedIn w' hw').mono ((List.suffix_append _ _).trans hw.starts.1)⟩

theorem PieceAt.placedIn {p : Part} {s r : Text} (h : PieceAt p s r) : PlacedIn s [p] := by
  cases h with
  | literal => exact placedIn_text _ _
  | expansion he => exact he.placedIn

theorem PiecesAt.placedIn {ps : List Part} {s r : Text} (h : PiecesAt ps s r) : PlacedIn s ps := by
  induction h with
  | nil => exact .nil _
  | cons hp _ ih => exact hp.placedIn.append (ih.mono hp.starts.1)

theorem LineAt.placedIn {l : Line} {s r : Text} (h : LineAt l s r) : PlacedIn s l.parts := by
  cases h with
  | elided => exact .nil _
  | content hrun _ hps _ => exact hps.placedIn.mono hrun.suffix

theorem Template.Derives.placedIn {ls : Template} {s : Text} (h : ls.Derives s) :
    PlacedIn s (ls.flatMap Line.parts) := by
  induction h with
  | nil => exact .nil _
  | cons hl _ _ ih =>
    rw [List.flatMap_cons]
    exact hl.placedIn.append (ih.mono hl.starts.1)

end TextTemplate

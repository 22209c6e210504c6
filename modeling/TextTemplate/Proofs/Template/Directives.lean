import TextTemplate.Proofs.Template.Occurrences

/-!
# The directives of a text

Directives stand in the lines of a text, in the words of other directives and in the names of references. Whatever
is seen of the run of a text, such as a question or a failure, is seen of a reference, of the fault of the text or of
a directive that stands in it, with what its words come to.

Main results:
* `StandsIn.mem_directives`: the directives that stand in parts.
* `evalText_happensAt`: where the events of a text happen.
-/

namespace TextTemplate

/-! ## Specification -/

mutual

/-- The directives in an expansion, each by its words, outer ones first. -/
def Expansion.directives : Expansion → List (List Word)
  | .dollar => []
  | .join => []
  | .comment => []
  | .reference _ name => directivesOfParts name
  | .directive _ words => words :: directivesOfWords words

/-- The directives in a part. -/
def Part.directives : Part → List (List Word)
  | .text _ => []
  | .expansion e => e.directives

/-- The directives in parts. -/
def directivesOfParts : List Part → List (List Word)
  | [] => []
  | p :: ps => p.directives ++ directivesOfParts ps

/-- The directives in words. -/
def directivesOfWords : List (List Part) → List (List Word)
  | [] => []
  | w :: ws => directivesOfParts w ++ directivesOfWords ws

end

/-- The directives of a text, each by its words. -/
def directivesOf (s : Text) : List (List Word) := directivesOfParts (completeParts s)

/-- The event is seen where one of the directives is evaluated. -/
def Semantics.HappensAt (files : Files) (E : ∀ {α : Type}, Inquiry Failure α → Prop) (m : Semantics)
    (ds : List (List Word)) : Prop :=
  ∃ words ∈ ds, ∃ ts start, ((evalWords m words).run files).result = .ok ts ∧ E (m.directive start ts)

/-! ## Directives that stand in parts -/

theorem directives_subset {e : Expansion} {ps : List Part} (h : .expansion e ∈ ps) :
    e.directives ⊆ directivesOfParts ps := by
  induction ps with
  | nil => cases h
  | cons p ps ih =>
    rw [directivesOfParts]
    rcases List.mem_cons.1 h with rfl | h
    · rw [Part.directives]
      exact List.subset_append_left _ _
    · exact List.subset_append_of_subset_right _ (ih h)

theorem directivesOfParts_subset {w : List Part} {ws : List (List Part)} (h : w ∈ ws) :
    directivesOfParts w ⊆ directivesOfWords ws := by
  induction ws with
  | nil => cases h
  | cons v ws ih =>
    rw [directivesOfWords]
    rcases List.mem_cons.1 h with rfl | h
    · exact List.subset_append_left _ _
    · exact List.subset_append_of_subset_right _ (ih h)

theorem StandsIn.mem_directives {start : Text} {words : List (List Part)} {ps : List Part}
    (h : StandsIn (.directive start words) ps) : words ∈ directivesOfParts ps := by
  induction h with
  | here he =>
    refine directives_subset he ?_
    rw [Expansion.directives]
    exact List.mem_cons_self
  | reference he _ ih =>
    refine directives_subset he ?_
    rw [Expansion.directives]
    exact ih
  | directive he hw _ ih =>
    refine directives_subset he ?_
    rw [Expansion.directives]
    exact List.mem_cons_of_mem _ (directivesOfParts_subset hw ih)

/-! ## Events of texts -/

/-- Of the run of a text, what is seen neither of references nor of faults is seen of a directive of the text. -/
theorem evalText_happensAt {files : Files} {E : ∀ {α : Type}, Inquiry Failure α → Prop} {m : Semantics}
    (hE : Inquiry.IsEvent files E) (hreference : ∀ u name, ¬ E (m.reference u name))
    (hfault : ∀ f : Fault, ¬ E (.fail (.here f.defect) : Inquiry Failure Text)) {s : Text}
    (h : E (evalText m s)) : m.HappensAt files E (directivesOf s) := by
  obtain ⟨e, he, hseen⟩ := evalText_seenAt hE hfault h
  cases hseen with
  | reference _ hlook => exact absurd hlook (hreference _ _)
  | directive hts hcommand => exact ⟨_, he.mem_directives, _, _, hts, hcommand⟩

end TextTemplate

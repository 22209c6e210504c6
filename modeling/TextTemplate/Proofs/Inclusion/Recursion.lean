import Mathlib.Tactic.SplitIfs
import TextTemplate.Inclusion
import TextTemplate.Proofs.Inquiry

/-!
# The recursion over includes

Expansion is defined by counting down the files that may still be entered. Here it is brought into the form
in which it is meant: an include is refused where the stack is as deep as allowed, and is expanded as any text
is where it is not.

Main results:
* `Context.expand_eq`: the equation, without the count.
* `Context.includeFirst_cons`: a candidate that is not being expanded is visited, and the search goes on
  behind it if there is no such file.
-/

namespace TextTemplate.Context

/-! ## Included files -/

/-- How an included file is expanded: under the name of its path. -/
def expandIncluded : Expander := fun c text => c.expand c.current.text text

/-- The given expander, where another file may be entered. -/
def within (c : Context) (expander : Expander) : Option Expander :=
  if c.depth < c.maxDepth then some expander else none

/-- Expand a text, with the files that it includes expanded as given. -/
def expandGiven (c : Context) (expander : Expander) (source text : Text) :
    Inquiry ExpandError Text :=
  c.expandWith (c.within expander) source text

/-- What references and directives stand for in the expansion of a text. -/
def meaning (c : Context) : Semantics := c.semantics (c.within expandIncluded)

/-! ## Visiting a candidate -/

/-- Ask for a candidate and expand it if it is there: nothing, if there is no such file. -/
def visit (c : Context) (expander : Expander) (p : Path) : Inquiry ExpandError (Option Text) :=
  .ask ⟨c.stack, p⟩ fun
    | .ok text => (expander (c.enter p) text).bind fun t => .pure (some t)
    | .error failure => if failure.kind = .notFound then .pure none else .fail (.unreadable p failure)

theorem includeFirst_cons {c : Context} {p : Path} (hp : ¬ c.OnStack p) (expander : Expander)
    (start file : Text) (ps : List Path) :
    c.includeFirst expander start file (p :: ps) =
      ((c.visit expander p).mapError .elsewhere).bind fun
        | some t => .pure t
        | none => c.includeFirst expander start file ps := by
  rw [includeFirst, if_neg hp, visit, Inquiry.mapError, Inquiry.bind]
  congr 1
  funext answer
  cases answer with
  | ok text =>
    simp only
    rw [Inquiry.mapError_bind, Inquiry.bind_assoc]
    exact (Inquiry.bind_pure _).symm
  | error failure => simp only; split_ifs <;> rfl

/-! ## The equation -/

section Congruence

variable {c : Context} {e e' : Expander}

theorem includeFirst_congr (h : ∀ p t, e (c.enter p) t = e' (c.enter p) t) (start file : Text)
    (ps : List Path) : c.includeFirst e start file ps = c.includeFirst e' start file ps := by
  induction ps with
  | nil => rfl
  | cons p ps ih => simp only [includeFirst, h, ih]

theorem semantics_congr (h : ∀ p t, e (c.enter p) t = e' (c.enter p) t) :
    c.semantics (some e) = c.semantics (some e') := by
  have hfile : ∀ start file, c.includeFile (some e) start file = c.includeFile (some e') start file := by
    intro start file
    simp only [includeFile, includeFirst_congr h]
  have hcommand : ∀ start words, c.command (some e) start words = c.command (some e') start words := by
    intro start words
    unfold command
    split
    · rfl
    · split_ifs
      · split
        · exact hfile _ _
        · rfl
      · rfl
  rw [semantics, semantics, funext fun start => funext (hcommand start)]

end Congruence

theorem levelsLeft_enter (c : Context) (p : Path) : (c.enter p).levelsLeft = c.levelsLeft - 1 := by
  rw [levelsLeft, depth_enter, levelsLeft]
  show c.maxDepth - (c.depth + 1) = c.maxDepth - c.depth - 1
  omega

theorem semantics_expanderWithin (c : Context) :
    c.semantics (expanderWithin c.levelsLeft) = c.meaning := by
  unfold meaning within
  split_ifs with h
  · obtain ⟨n, hn⟩ : ∃ n, c.levelsLeft = n + 1 :=
      ⟨c.maxDepth - c.depth - 1, by rw [levelsLeft]; omega⟩
    rw [hn, expanderWithin]
    refine semantics_congr fun p t => ?_
    have hp : (c.enter p).levelsLeft = n := by rw [levelsLeft_enter, hn]; rfl
    rw [expandIncluded, expand, hp]
  · have hn : c.levelsLeft = 0 := by rw [levelsLeft]; omega
    rw [hn, expanderWithin]

/-- Expansion without the count of levels: a text is evaluated, and so is every file that it includes, as
    long as the stack is not as deep as allowed. -/
theorem expand_eq (c : Context) (source text : Text) :
    c.expand source text = c.expandGiven expandIncluded source text := by
  rw [expand, expandWith, semantics_expanderWithin]
  rfl

theorem expandGiven_eq (c : Context) (expander : Expander) (source text : Text) :
    c.expandGiven expander source text =
      (evalText (c.semantics (c.within expander)) text).mapError (Failure.inSource source text) := rfl

end TextTemplate.Context

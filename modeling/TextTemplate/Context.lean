import TextTemplate.Bindings
import TextTemplate.Path

/-!
# Search contexts

A context is what the expansion of one file goes by: the bindings, the directories searched for includes,
the file itself and the files that led to it, and how many files may be open at once. Entering an include
makes a new context, so files included one after the other do not see each other.

Results:
* `stack_enter`, `depth_enter`: entering puts one path on the stack.
-/

namespace TextTemplate

/-- How many files may be open at once, if nothing else is said. -/
def defaultMaxDepth : Nat := 32

/-- What the expansion of a file goes by. -/
structure Context where
  /-- What references are looked up in. -/
  bindings : Bindings
  /-- The directories searched for includes after the file's own, in order. -/
  searchDirs : List Path
  /-- How many files may be open at once. -/
  maxDepth : Nat
  /-- The files that led to the current one by inclusion, outermost first. -/
  including : List Path
  /-- The file that is being expanded. -/
  current : Path
  deriving DecidableEq

namespace Context

/-- The context of a file that is not included by another. -/
def ofRoot (bindings : Bindings) (root : Path) : Context :=
  ⟨bindings, [], defaultMaxDepth, [], root⟩

/-- The files that are being expanded, outermost first. -/
def stack (c : Context) : List Path := c.including ++ [c.current]

/-- How many files are being expanded. -/
def depth (c : Context) : Nat := c.stack.length

/-- How many more files may be entered one inside the other. -/
def levelsLeft (c : Context) : Nat := c.maxDepth - c.depth

/-- Whether a path is being expanded already. -/
def OnStack (c : Context) (p : Path) : Prop := ∃ q ∈ c.stack, q.Same p

instance (c : Context) (p : Path) : Decidable (c.OnStack p) :=
  inferInstanceAs (Decidable (∃ q ∈ c.stack, q.Same p))

/-- The paths where an include is looked for, in order: beside the current file, then in each search
    directory. -/
def candidates (c : Context) (file : Path) : List Path :=
  c.current.parent.join file :: c.searchDirs.map (·.join file)

/-- The context of a file that the current one includes. -/
def enter (c : Context) (p : Path) : Context :=
  { c with including := c.stack, current := p }

theorem stack_enter (c : Context) (p : Path) : (c.enter p).stack = c.stack ++ [p] := rfl

theorem depth_enter (c : Context) (p : Path) : (c.enter p).depth = c.depth + 1 := by
  simp [depth, stack_enter]

end Context

end TextTemplate

import TextTemplate.Proofs.Inclusion.Reached

/-!
# The stack of included files

However files are included, an expansion that starts with one file comes to an end. Each call puts the file
that was just read on the stack, which never holds one path twice, under two spellings either, and never more
files than may be open at once. Where few files can be read at all, the limit on open files is therefore
never met: the check for cycles alone ends every expansion.

Main results:
* `WellStacked.enter`, `wellStacked_of_reached`: what one call keeps, and what any number of them.
* `inclusion_bounded`: the stacks and ends of all expansions.
-/

namespace TextTemplate

/-! ## Specification -/

/-- No two spellings of one path are among the paths. -/
def Distinct (ps : List Path) : Prop := ps.Pairwise fun p q => ¬ p.Same q

/-- The files hold texts at no more than `n` distinct paths. -/
def Files.AtMost (files : Files) (n : Nat) : Prop :=
  ∀ ps, Distinct ps → (∀ p ∈ ps, ∃ t, files p = .ok t) → ps.length ≤ n

/-- The expansion of a text that no other file includes. -/
def Call.ofRoot (bindings : Bindings) (searchDirs : List Path) (maxDepth : Nat) (root : Path)
    (source text : Text) : Call :=
  ⟨⟨bindings, searchDirs, maxDepth, [], root⟩, source, text⟩

/-- What the stacks have in common in expansions that start with the file `root`. -/
structure WellStacked (files : Files) (root : Path) (maxDepth : Nat) (c : Context) : Prop where
  /-- The limit on open files is the same everywhere. -/
  limit : c.maxDepth = maxDepth
  /-- The first file leads to all others. -/
  root : c.stack.head? = some root
  /-- No file is open twice. -/
  distinct : Distinct c.stack
  /-- No more files are open than allowed, but for the first, which always is. -/
  length_le : c.stack.length ≤ max 1 maxDepth
  /-- All others could be read. -/
  given : ∀ p ∈ c.stack.tail, ∃ t, files p = .ok t

/-! ## The invariant -/

section Invariant

variable {files : Files} {root : Path} {maxDepth : Nat}

theorem wellStacked_ofRoot (files : Files) (bindings : Bindings) (searchDirs : List Path)
    (maxDepth : Nat) (root : Path) :
    WellStacked files root maxDepth ⟨bindings, searchDirs, maxDepth, [], root⟩ where
  limit := rfl
  root := rfl
  distinct := List.pairwise_singleton _ _
  length_le := Nat.le_max_left 1 maxDepth
  given := by simp [Context.stack]

/-- Entering a file that can be read, is not being expanded and may still be opened. -/
theorem WellStacked.enter {c : Context} (h : WellStacked files root maxDepth c) {p : Path} {t : Text}
    (hp : ¬ c.OnStack p) (hd : c.depth < c.maxDepth) (hfile : files p = .ok t) :
    WellStacked files root maxDepth (c.enter p) where
  limit := h.limit
  root := by
    rw [Context.stack_enter, List.head?_append, h.root]
    rfl
  distinct := by
    rw [Context.stack_enter]
    refine List.pairwise_append.2 ⟨h.distinct, List.pairwise_singleton _ _, ?_⟩
    intro q hq p' hp' hsame
    obtain rfl : p' = p := by simpa using hp'
    exact hp ⟨q, hq, hsame⟩
  length_le := by
    have hlimit := h.limit
    have hdepth : c.stack.length < c.maxDepth := hd
    rw [Context.stack_enter, List.length_append, List.length_singleton]
    omega
  given := by
    have hne : c.stack ≠ [] := by
      intro hnil
      have := h.root
      rw [hnil] at this
      cases this
    intro q hq
    rw [Context.stack_enter, List.tail_append_of_ne_nil hne] at hq
    rcases List.mem_append.1 hq with hq | hq
    · exact h.given q hq
    · obtain rfl : q = p := by simpa using hq
      exact ⟨t, hfile⟩

/-- A call enters one file. -/
theorem WellStacked.calls {a b : Call} (h : WellStacked files root maxDepth a.context)
    (hab : Calls files a b) : WellStacked files root maxDepth b.context := by
  obtain ⟨p, t, hq, hp, rfl⟩ := calls_iff.1 hab
  obtain ⟨hfresh, hdepth⟩ := fresh_of_question hq
  exact h.enter hfresh hdepth hp

theorem wellStacked_of_reached {a b : Call} (h : WellStacked files root maxDepth a.context)
    (hab : Relation.ReflTransGen (Calls files) a b) : WellStacked files root maxDepth b.context := by
  induction hab with
  | refl => exact h
  | tail _ hcall ih => exact ih.calls hcall

/-- Where few files can be read, few are open. -/
theorem WellStacked.depth_le {c : Context} (h : WellStacked files root maxDepth c) {n : Nat}
    (hn : files.AtMost n) : c.depth ≤ n + 1 := by
  have htail : c.stack.tail.length ≤ n := hn _ (h.distinct.sublist (List.tail_sublist _)) h.given
  rw [List.length_tail] at htail
  rw [Context.depth]
  omega

/-- An expansion that meets the limit on open files has a stack as deep as that. -/
theorem depth_le_of_failsItself {a : Call} {err : SourceError} (h : a.FailsItself files (.source err))
    {limit : Nat} (hcause : err.cause = .depthExceeded limit) :
    a.context.maxDepth ≤ a.context.depth := by
  rcases h with ⟨u, cause, -, hrefuses, herr⟩ | ⟨t, -, herr⟩
  · cases herr
    change cause = _ at hcause
    rw [hcause] at hrefuses
    cases hrefuses with
    | depthExceeded hd => exact hd
  · cases herr
    cases hcause

end Invariant

/-! ## Main theorem -/

/-- However files are included, starting with the file `root`: no chain of calls goes on for ever, and finitely
    many expansions are reached; the stack of each starts with the root, holds no path twice and is no longer
    than allowed; what it calls has its stack and the path that was read just before; whatever is asked is
    asked from one of these stacks, and what is given is expanded; and the limit on open files is not met
    where it exceeds the number of files that can be read by more than one. -/
theorem inclusion_bounded (files : Files) (bindings : Bindings) (searchDirs : List Path)
    (maxDepth : Nat) (root : Path) (source text : Text) :
    let a := Call.ofRoot bindings searchDirs maxDepth root source text
    Acc (fun c b => Calls files b c) a ∧
    {b | Relation.ReflTransGen (Calls files) a b}.Finite ∧
    (∀ b, Relation.ReflTransGen (Calls files) a b →
      b.context.stack.head? = some root ∧ Distinct b.context.stack ∧
      b.context.stack.length ≤ max 1 maxDepth ∧
      ∀ c, Calls files b c → ∃ p pre post, files p = .ok c.text ∧ c.source = p.text ∧
        c.context.stack = b.context.stack ++ [p] ∧
        (b.run files).questions = pre ++ ⟨b.context.stack, p⟩ :: (c.run files).questions ++ post) ∧
    (∀ q ∈ (a.run files).questions, ∃ b, Relation.ReflTransGen (Calls files) a b ∧
      q.stack = b.context.stack ∧
      ∀ t, files q.path = .ok t → Calls files b (b.included q.path t)) ∧
    ∀ n, files.AtMost n → n + 1 < maxDepth → ∀ err, (a.run files).result = .error (.source err) →
      ∀ limit, err.cause ≠ .depthExceeded limit := by
  intro a
  have hroot : WellStacked files root maxDepth a.context :=
    wellStacked_ofRoot files bindings searchDirs maxDepth root
  refine ⟨acc_calls files a, finite_reached files a, ?_, ?_, ?_⟩
  · intro b hb
    have h := wellStacked_of_reached hroot hb
    refine ⟨h.root, h.distinct, h.length_le, ?_⟩
    intro c hc
    obtain ⟨p, t, hq, hp, rfl⟩ := calls_iff.1 hc
    obtain ⟨pre, post, hquestions⟩ := questions_of_question hq hp
    exact ⟨p, pre, post, hp, rfl, rfl, hquestions⟩
  · intro q hq
    exact exists_reached_of_question files a hq
  · intro n hn hlimit err herr limit hcause
    rcases exists_reached_of_error files a herr with ⟨b, hb, -, hfails⟩ | ⟨p, g, hread⟩
    · have h := wellStacked_of_reached hroot hb
      have hdeep := depth_le_of_failsItself hfails hcause
      have hfew := h.depth_le hn
      rw [h.limit] at hdeep
      omega
    · cases hread

end TextTemplate

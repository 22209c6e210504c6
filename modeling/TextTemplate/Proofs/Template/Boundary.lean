import TextTemplate.Proofs.Template.Behind

/-!
# Templates up to the end of a line

A newline ends a line unless a dollar sign joins it to the next, and a dollar sign does so unless it is the second
of two. So after an even number of dollar signs a newline ends its line wherever it stands. Whatever the grammar
derives in front of such a line end stops before it or with it, and it is derived in the same way if more
text follows.

Main results:
* `EndsLine.of_append`: what is left of a text behind something complete ends its line as the text does.
* `ExpansionAt.append`, `WordAt.append`, `PiecesAt.append`, `LineAt.append`: derivations in front of more text.
-/

namespace TextTemplate

/-! ## Line ends -/

/-- The text is empty or ends with a newline that has an even number of dollar signs before it. -/
def EndsLine (s : Text) : Prop :=
  s = [] ∨ ∃ u n, s = u ++ List.replicate (2 * n) '$' ++ ['\n'] ∧ u.getLast? ≠ some '$'

namespace EndsLine

variable {s t : Text}

theorem nil : EndsLine [] := .inl rfl

theorem getLast?_eq (h : EndsLine s) : ∀ c ∈ s.getLast?, c = '\n' := by
  intro c hc
  rcases h with rfl | ⟨u, n, rfl, -⟩
  · cases hc
  · rw [List.getLast?_concat] at hc
    exact (Option.some.inj hc).symm

/-- Something is left behind what does not end with a newline. -/
theorem ne_nil_of_append (h : EndsLine (t ++ s)) {c : Char} (ht : t.getLast? = some c)
    (hc : c ≠ '\n') : s ≠ [] := by
  rintro rfl
  rw [List.append_nil] at h
  exact hc (h.getLast?_eq c ht)

theorem newline_mem (h : EndsLine s) (hs : s ≠ []) : '\n' ∈ s := by
  rcases h with rfl | ⟨u, n, rfl, -⟩
  · exact absurd rfl hs
  · simp

/-- What is left behind anything but a dollar sign. -/
theorem of_append (h : EndsLine (t ++ s)) (ht : t.getLast? ≠ some '$') : EndsLine s := by
  rcases List.eq_nil_or_concat s with rfl | ⟨s, c, rfl⟩
  · exact nil
  · rw [List.concat_eq_append] at h ⊢
    rcases h with h | ⟨u, n, h, hu⟩
    · simp at h
    · rw [← List.append_assoc] at h
      obtain ⟨h, hc⟩ := List.append_inj' h rfl
      rw [hc]
      rcases List.append_eq_append_iff.1 h with ⟨v, rfl, rfl⟩ | ⟨v, rfl, hv⟩
      · refine .inr ⟨v, n, rfl, fun hv => hu ?_⟩
        rw [List.getLast?_append, hv]
        rfl
      · -- only dollar signs are left of the text behind `u`
        obtain rfl : v = [] := by
          by_contra hne
          obtain ⟨d, hd⟩ := Option.ne_none_iff_exists'.1 (mt List.getLast?_eq_none_iff.1 hne)
          have hmem : d ∈ List.replicate (2 * n) '$' := by
            rw [hv]
            exact List.mem_append_left _ (List.mem_of_getLast? hd)
          rw [List.getLast?_append, hd, List.eq_of_mem_replicate hmem] at ht
          exact ht rfl
        rw [List.nil_append] at hv
        exact .inr ⟨[], n, by rw [← hv]; rfl, by simp⟩

theorem of_cons {c : Char} (h : EndsLine (c :: s)) (hc : c ≠ '$') : EndsLine s :=
  of_append (t := [c]) h (by simpa using hc)

/-- What is left behind a doubled dollar sign. -/
theorem of_dollars (h : EndsLine ('$' :: '$' :: s)) : EndsLine s := by
  rcases h with h | ⟨u, n, h, hu⟩
  · cases h
  · match u with
    | [] =>
      cases n with
      | zero => cases h
      | succ n =>
        rw [Nat.mul_succ, List.replicate_succ, List.replicate_succ] at h
        cases h
        exact .inr ⟨[], n, rfl, by simp⟩
    | [c] =>
      obtain ⟨rfl, -⟩ := List.cons.inj h
      exact absurd rfl hu
    | c :: d :: u =>
      cases h
      refine .inr ⟨u, n, rfl, ?_⟩
      intro hlast
      cases u with
      | nil => cases hlast
      | cons e u => exact hu (by simpa using hlast)

/-- A join is never the end. -/
theorem ne_nil_of_join (h : EndsLine ('$' :: '\n' :: s)) : s ≠ [] := by
  rintro rfl
  rcases h with h | ⟨u, n, h, hu⟩
  · cases h
  · have hlen := congrArg List.length h
    simp only [List.length_append, List.length_replicate, List.length_cons, List.length_nil] at hlen
    obtain rfl : n = 0 := by omega
    have hlast : ['$'] ++ ['\n'] = u ++ List.replicate (2 * 0) '$' ++ ['\n'] := h
    obtain ⟨h, -⟩ := List.append_inj' hlast rfl
    rw [List.replicate_zero, List.append_nil] at h
    exact hu (by rw [← h]; rfl)

theorem newline (h : EndsLine s) : EndsLine ('\n' :: s) := by
  rcases h with rfl | ⟨u, n, rfl, hu⟩
  · exact .inr ⟨[], 0, rfl, by simp⟩
  · refine .inr ⟨'\n' :: u, n, rfl, ?_⟩
    cases u with
    | nil => decide
    | cons c u => simpa using hu

/-- A comment stops before the end, also where blanks stand in front of it. -/
theorem of_comment {b v : Text} (h : EndsLine (b ++ '$' :: '-' :: '-' :: s)) (hb : ∀ c ∈ b, isBlank c = true)
    (hrun : IsRun isLineChar s v r) : ∃ u, r = '\n' :: u ∧ EndsLine u := by
  have hv : '\n' ∉ v := fun hn => absurd (hrun.all _ hn) (by decide)
  rw [hrun.split] at h
  cases r with
  | nil =>
    have hn := h.newline_mem (by simp)
    simp only [List.append_nil, List.mem_append, List.mem_cons, hv, or_false] at hn
    rcases hn with hn | hn
    · exact absurd (hb _ hn) (by decide)
    · exact absurd hn (by decide)
  | cons c u =>
    obtain rfl : c = '\n' := by simpa [isLineChar] using hrun.stop c rfl
    refine ⟨u, rfl, ?_⟩
    have hsplit : b ++ '$' :: '-' :: '-' :: (v ++ '\n' :: u) = b ++ '$' :: '-' :: '-' :: v ++ ['\n'] ++ u := by
      simp
    rw [hsplit] at h
    exact h.of_append (by rw [List.getLast?_concat]; decide)

end EndsLine

theorem getLast?_ne_dollar {p : Char → Bool} {t : Text} (ht : ∀ c ∈ t, p c = true)
    (hp : p '$' = false) : t.getLast? ≠ some '$' := by
  intro h
  rw [ht _ (List.mem_of_getLast? h)] at hp
  cases hp

/-- A run without newlines is followed by something. -/
theorem IsRun.ne_nil {p : Char → Bool} {s t r : Text} (h : IsRun p s t r) (hp : p '\n' = false)
    (hs : EndsLine s) (hne : s ≠ []) : r ≠ [] := by
  rintro rfl
  have hn := hs.newline_mem hne
  rw [h.split, List.append_nil] at hn
  rw [h.all _ hn] at hp
  cases hp

/-- Behind a run without dollar signs the line ends as it does in front of it. -/
theorem IsRun.endsLine {p : Char → Bool} {s t r : Text} (h : IsRun p s t r) (hp : p '$' = false)
    (hs : EndsLine s) : EndsLine r := by
  rw [h.split] at hs
  exact hs.of_append (getLast?_ne_dollar h.all hp)

/-! ## Expansions and words -/

mutual

/-- What is left behind an expansion ends its line, and is not empty. -/
theorem ExpansionAt.endsLine {e : Expansion} {s r : Text} (h : ExpansionAt e s r) (hs : EndsLine s) :
    EndsLine r ∧ r ≠ [] := by
  cases h with
  | dollar => exact ⟨hs.of_dollars, hs.ne_nil_of_append (t := ['$', '$']) rfl (by decide)⟩
  | join => exact ⟨hs.of_append (t := ['$', '\n']) (by decide), hs.ne_nil_of_join⟩
  | comment h =>
    obtain ⟨u, rfl, hu⟩ := EndsLine.of_comment (b := []) hs (by simp) h
    exact ⟨hu.newline, List.cons_ne_nil _ _⟩
  | reference h =>
    obtain ⟨hr, -⟩ := h.endsLine (hs.of_append (t := ['$', '\x7b']) (by decide))
    exact ⟨hr.of_cons (by decide), hr.ne_nil_of_append (t := ['\x7d']) rfl (by decide)⟩
  | directive hg h hg' =>
    rename_i g s g' ws
    have hgs : EndsLine (g ++ s) := hs.of_append (t := ['$', '(']) (by decide)
    have hr := h.endsLine (hgs.of_append (getLast?_ne_dollar hg (by decide)))
    have hclose := hr.of_append (getLast?_ne_dollar hg' (by decide))
    exact ⟨hclose.of_cons (by decide), hclose.ne_nil_of_append (t := [')']) rfl (by decide)⟩

theorem PartAt.endsLine {p : Part} {s r : Text} (h : PartAt p s r) (hs : EndsLine s) :
    EndsLine r ∧ r ≠ [] := by
  cases h with
  | bareword h hne => exact ⟨h.endsLine (by decide) hs, h.ne_nil (by decide) hs (by rw [h.split]; simp [hne])⟩
  | quoted hq hw =>
    rename_i q w t
    have hquote : q ≠ '$' ∧ q ≠ '\n' := by
      constructor <;> rintro rfl <;> exact absurd hq (by decide)
    have hsplit : q :: (w ++ q :: r) = q :: w ++ [q] ++ r := by simp
    have hlast : (q :: w ++ [q]).getLast? = some q := List.getLast?_concat
    rw [hsplit] at hs
    refine ⟨hs.of_append ?_, hs.ne_nil_of_append hlast hquote.2⟩
    rw [hlast]
    simpa using hquote.1
  | expansion h => exact h.endsLine hs

theorem WordAt.endsLine {w : Word} {s r : Text} (h : WordAt w s r) (hs : EndsLine s) :
    EndsLine r ∧ r ≠ [] := by
  cases h with
  | last h _ => exact h.endsLine hs
  | cons h k => exact k.endsLine (h.endsLine hs).1

theorem WordsAt.endsLine {ws : List Word} {s r : Text} (h : WordsAt ws s r) (hs : EndsLine s) :
    EndsLine r := by
  cases h with
  | nil => exact hs
  | last h => exact (h.endsLine hs).1
  | cons h _ hg k => exact k.endsLine ((h.endsLine hs).1.of_append (getLast?_ne_dollar hg (by decide)))

end

theorem ExpansionAt.append {e : Expansion} {s r : Text} (h : ExpansionAt e s r) (hs : EndsLine s)
    (x : Text) : (EndsLine r ∧ r ≠ []) ∧ ExpansionAt (e.inFrontOf x) (s ++ x) (r ++ x) :=
  ⟨h.endsLine hs, h.inFrontOf (.inl (h.endsLine hs).2)⟩

theorem PartAt.append {p : Part} {s r : Text} (h : PartAt p s r) (hs : EndsLine s) (x : Text) :
    (EndsLine r ∧ r ≠ []) ∧ PartAt (p.inFrontOf x) (s ++ x) (r ++ x) :=
  ⟨h.endsLine hs, h.inFrontOf (.inl (h.endsLine hs).2)⟩

theorem WordAt.append {w : Word} {s r : Text} (h : WordAt w s r) (hs : EndsLine s) (x : Text) :
    (EndsLine r ∧ r ≠ []) ∧ WordAt (partsInFrontOf x w) (s ++ x) (r ++ x) :=
  ⟨h.endsLine hs, h.inFrontOf (.inl (h.endsLine hs).2)⟩

/-! ## Lines -/

theorem PiecesAt.endsLine {ps : List Part} {s r : Text} (h : PiecesAt ps s r) (hs : EndsLine s)
    (hne : s ≠ []) : EndsLine r ∧ r ≠ [] := by
  induction h with
  | nil => exact ⟨hs, hne⟩
  | cons h _ ih =>
    obtain ⟨hu, hne'⟩ : _ ∧ _ := by
      cases h with
      | literal h ht => exact ⟨h.endsLine (by decide) hs, h.ne_nil (by decide) hs hne⟩
      | expansion h => exact h.endsLine hs
    exact ih hu hne'

theorem PiecesAt.append {ps : List Part} {s r : Text} (h : PiecesAt ps s r) (hs : EndsLine s)
    (hne : s ≠ []) (x : Text) :
    (EndsLine r ∧ r ≠ []) ∧ PiecesAt (partsInFrontOf x ps) (s ++ x) (r ++ x) :=
  ⟨h.endsLine hs hne, h.inFrontOf (.inl (h.endsLine hs hne).2)⟩

theorem LineEndAt.append {s r : Text} (h : LineEndAt s r) (hs : EndsLine s) (hne : s ≠ [])
    (x : Text) : EndsLine r ∧ LineEndAt (s ++ x) (r ++ x) := by
  cases h with
  | newline => exact ⟨hs.of_cons (by decide), .newline⟩
  | endOfText => exact absurd rfl hne

/-- More text behind a line end starts no comment. -/
theorem not_comment_append {s : Text} (h : ¬ ['$', '-', '-'] <+: s) (hs : EndsLine s) (hne : s ≠ [])
    (x : Text) : ¬ ['$', '-', '-'] <+: s ++ x := by
  intro hx
  rcases Nat.le_total 3 s.length with hlen | hlen
  · exact h (List.prefix_of_prefix_length_le hx (List.prefix_append s x) hlen)
  · have hsub := List.prefix_of_prefix_length_le (List.prefix_append s x) hx hlen
    exact absurd (hsub.subset (hs.newline_mem hne)) (by decide)

theorem LineAt.append {l : Line} {s r : Text} (h : LineAt l s r) (hs : EndsLine s) (hne : s ≠ [])
    (x : Text) : EndsLine r ∧ LineAt (l.inFrontOf x) (s ++ x) (r ++ x) := by
  cases h with
  | elided hb h hend =>
    rename_i b s t u
    obtain ⟨v, rfl, hv⟩ := hs.of_comment hb h
    obtain ⟨hr, hend⟩ := hend.append hv.newline (List.cons_ne_nil _ _) x
    refine ⟨hr, ?_⟩
    have hline := LineAt.elided hb (h.inFrontOf (.inl (List.cons_ne_nil _ _))) hend
    rw [List.append_assoc]
    exact hline
  | content h hnot hps hend =>
    have hu := h.ne_nil (by decide) hs hne
    have hu' := h.endsLine (by decide) hs
    obtain ⟨⟨hv, hne'⟩, hps⟩ := hps.append hu' hu x
    obtain ⟨hr, hend⟩ := hend.append hv hne' x
    exact ⟨hr, .content (h.inFrontOf (.inl hu)) (not_comment_append hnot hu' hu x) hps hend⟩

end TextTemplate

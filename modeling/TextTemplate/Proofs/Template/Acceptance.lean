import TextTemplate.Proofs.Template.Reading

/-!
# What the grammar derives is read

The other half of reading: each derivation makes its reader succeed, with the derived tree and the text
that follows it. So the grammar alone decides which texts are templates.

Main results:
* `Template.read_eq_ok_iff`: a text is read as a template exactly where the grammar derives it.
* `Template.Derives.unique`: the grammar derives at most one template from a text.
-/

namespace TextTemplate

/-! ## Characters -/

theorem ne_of_isBarewordChar {c : Char} (h : isBarewordChar c = true) :
    c ≠ '$' ∧ isQuote c = false := by
  constructor
  · rintro rfl; exact absurd h (by decide)
  · by_contra hq
    simp only [isQuote, Bool.not_eq_false, Bool.or_eq_true, beq_iff_eq] at hq
    rcases hq with rfl | rfl <;> exact absurd h (by decide)

theorem not_isGap_of_startsPart {c : Char} (h : startsPart c = true) : isGap c = false := by
  by_contra hg
  simp only [isGap, Bool.not_eq_false, Bool.or_eq_true, beq_iff_eq] at hg
  rcases hg with rfl | rfl <;> exact absurd h (by decide)

theorem readPart_eq_none {s : Text} (h : ∀ c ∈ s.head?, startsPart c = false) :
    readPart s = .ok none := by
  unfold readPart
  cases s with
  | nil => rfl
  | cons c r =>
    obtain ⟨hd, hq, hb⟩ := startsPart_eq_false_iff.1 (h c rfl)
    simp [hd, hq, hb]

theorem readWord_eq_none {s : Text} (h : ∀ c ∈ s.head?, startsPart c = false) :
    readWord s = .ok none := by
  unfold readWord
  rw [readPart_eq_none h]

/-- A word starts with a character that starts a part, so no gap stands in front of it. -/
theorem WordAt.dropWhile_isGap {w : Word} {s r : Text} (h : WordAt w s r) :
    s.dropWhile isGap = s := by
  have hp : ∃ c u, s = c :: u ∧ startsPart c = true := by
    have hpart : ∃ p u, PartAt p s u := by
      cases h with
      | last h _ => exact ⟨_, _, h⟩
      | cons h _ => exact ⟨_, _, h⟩
    obtain ⟨p, u, hp⟩ := hpart
    cases hp with
    | bareword h hne =>
      rename_i t
      obtain ⟨c, t, rfl⟩ := List.exists_cons_of_ne_nil hne
      exact ⟨c, t ++ u, h.split, by simp [startsPart, h.all c List.mem_cons_self]⟩
    | quoted hq _ => exact ⟨_, _, rfl, by simp [startsPart, hq]⟩
    | expansion h =>
      obtain ⟨⟨v, rfl, _⟩, _⟩ := h.starts
      exact ⟨'$', v, rfl, by decide⟩
  obtain ⟨c, u, rfl, hc⟩ := hp
  rw [List.dropWhile_cons, not_isGap_of_startsPart hc]
  rfl

/-! ## Derived expansions and words are read -/

theorem dropWhile_gap_close {g : Text} (hg : ∀ c ∈ g, isGap c = true) (r : Text) :
    (g ++ ')' :: r).dropWhile isGap = ')' :: r := by
  rw [List.dropWhile_append_of_pos hg, List.dropWhile_cons]
  rfl

theorem readWords_close (r : Text) : ∃ k, readWords (')' :: r) = .ok ⟨[], r, k⟩ := by
  have h : readWord (')' :: r) = .ok none := readWord_eq_none (by intro c hc; cases hc; decide)
  unfold readWords
  rw [h]
  exact ⟨by simp, rfl⟩

/-- A word and a gap before more words are read together with them. -/
theorem readWords_gap {s g u v : Text} {w : Word} {ws : List Word}
    (hw : ∃ k, readWord s = .ok (some ⟨w, g ++ u, k⟩)) (hne : g ≠ []) (hg : ∀ c ∈ g, isGap c = true)
    (hu : ∃ k, readWords (u.dropWhile isGap) = .ok ⟨ws, v, k⟩) :
    ∃ k, readWords s = .ok ⟨w :: ws, v, k⟩ := by
  obtain ⟨c, g, rfl⟩ := List.exists_cons_of_ne_nil hne
  have hc : isGap c = true := hg c List.mem_cons_self
  have hne' : c ≠ ')' := by rintro rfl; exact absurd hc (by decide)
  have hdrop : (g ++ u).dropWhile isGap = u.dropWhile isGap :=
    List.dropWhile_append_of_pos fun d hd => hg d (List.mem_cons_of_mem c hd)
  rw [← hdrop] at hu
  obtain ⟨k, hw⟩ := hw
  obtain ⟨k', hu⟩ := hu
  have hlt := length_dropWhile_le isGap (g ++ u)
  unfold readWords
  rw [hw]
  simp only [List.cons_append, hne', if_false, hc, if_true, hu]
  simp only [List.cons_append, List.length_cons] at k
  exact ⟨by omega, trivial⟩

mutual

theorem ExpansionAt.read {e : Expansion} {s r : Text} (h : ExpansionAt e s r) :
    ∃ v k, s = '$' :: v ∧ readExpansion v = .ok ⟨e, r, k⟩ := by
  cases h with
  | dollar => exact ⟨_, by simp only [List.length_cons]; omega, rfl, by rw [readExpansion]⟩
  | join => exact ⟨_, by simp only [List.length_cons]; omega, rfl, by rw [readExpansion]⟩
  | comment h =>
    have hlt := h.suffix.length_le
    exact ⟨_, by simp; omega, rfl, by rw [readExpansion]; simp [h.dropWhile_eq]⟩
  | reference h =>
    obtain ⟨k, hw⟩ := h.read
    simp only [List.length_cons] at k
    exact ⟨_, by simp; omega, rfl, by rw [readExpansion]; simp [hw]⟩
  | directive hg h hg' =>
    have hws := h.read _ _ rfl hg'
    rw [← List.dropWhile_append_of_pos hg] at hws
    obtain ⟨k, hws⟩ := hws
    exact ⟨_, _, rfl, by rw [readExpansion, hws]⟩

theorem PartAt.read {p : Part} {s r : Text} (h : PartAt p s r) :
    ∃ k, readPart s = .ok (some ⟨p, r, k⟩) := by
  cases h with
  | bareword h hne =>
    have hlt := h.suffix.length_le
    obtain ⟨c, v, rfl, hc, rfl, hr⟩ := h.exists_cons hne
    obtain ⟨hd, hq⟩ := ne_of_isBarewordChar hc
    have hlt := length_dropWhile_le isBarewordChar v
    unfold readPart
    simp only [hd, hq, hc, if_true, if_false, Bool.false_eq_true, hr]
    rw [hr] at hlt
    exact ⟨by simp only [List.length_cons]; omega, trivial⟩
  | quoted hq h =>
    rename_i q w t
    have hd : q ≠ '$' := by rintro rfl; exact absurd hq (by decide)
    have hk := Quoted.read_of_writes hq h r
    unfold readPart
    simp only [hd, hq, if_true, if_false]
    split
    · rename_i h'; rw [hk] at h'; cases h'
    · rename_i h'; rw [hk] at h'; cases h'; exact ⟨by simp; omega, rfl⟩
  | expansion h =>
    obtain ⟨v, k, rfl, he⟩ := h.read
    unfold readPart
    simp only [if_true, he]
    exact ⟨by simpa using k, trivial⟩

theorem WordAt.read {w : Word} {s r : Text} (h : WordAt w s r) :
    ∃ k, readWord s = .ok (some ⟨w, r, k⟩) := by
  cases h with
  | last h hr =>
    obtain ⟨k, hp⟩ := h.read
    unfold readWord
    rw [hp]
    simp only [readWord_eq_none hr]
    exact ⟨k, trivial⟩
  | cons h hw =>
    obtain ⟨k, hp⟩ := h.read
    obtain ⟨k', hw'⟩ := hw.read
    unfold readWord
    rw [hp]
    simp only [hw']
    exact ⟨k'.trans k, trivial⟩

theorem WordsAt.read {ws : List Word} {s u : Text} (h : WordsAt ws s u) :
    ∀ g r, u = g ++ ')' :: r → (∀ c ∈ g, isGap c = true) →
      ∃ k, readWords (s.dropWhile isGap) = .ok ⟨ws, r, k⟩ := by
  cases h with
  | nil =>
    intro g r hu hg
    rw [hu, dropWhile_gap_close hg]
    exact readWords_close r
  | last h =>
    intro g r hu hg
    have hw := h.read
    rw [h.dropWhile_isGap]
    rw [hu] at hw
    by_cases hne : g = []
    · rw [hne, List.nil_append] at hw
      obtain ⟨k, hw⟩ := hw
      unfold readWords
      rw [hw]
      simp only [if_true]
      exact ⟨by simp only [List.length_cons] at k; omega, trivial⟩
    · have hclose := readWords_close r
      rw [← dropWhile_gap_close (g := []) (by simp) r] at hclose
      exact readWords_gap hw hne hg hclose
  | cons h hne hg' hws =>
    intro g r hu hg
    have hws' := hws.read g r hu hg
    rw [h.dropWhile_isGap]
    exact readWords_gap h.read hne hg' hws'

end

/-! ## Derived lines and templates are read -/

theorem PieceAt.read {p : Part} {s u r : Text} {ps : List Part} (h : PieceAt p s u)
    (hps : ∃ k, readLineParts u = .ok ⟨ps, r, k⟩) :
    ∃ k, readLineParts s = .ok ⟨p :: ps, r, k⟩ := by
  cases h with
  | literal h hne =>
    obtain ⟨c, v, rfl, hc, rfl, hr⟩ := h.exists_cons hne
    obtain ⟨hd, hn⟩ : c ≠ '$' ∧ c ≠ '\n' := by simpa [isLiteralChar] using hc
    have hlt := length_dropWhile_le isLiteralChar v
    rw [← hr] at hps
    obtain ⟨k, hps⟩ := hps
    unfold readLineParts
    simp only [hd, hn, if_false, hps]
    exact ⟨by simp only [List.length_cons]; omega, trivial⟩
  | expansion h =>
    obtain ⟨v, k, rfl, he⟩ := h.read
    obtain ⟨k', hps⟩ := hps
    unfold readLineParts
    have hd : '$' ≠ '\n' := by decide
    simp only [hd, if_true, if_false, he, hps]
    exact ⟨by simp only [List.length_cons]; omega, trivial⟩

theorem PiecesAt.read {ps : List Part} {s u r : Text} (h : PiecesAt ps s u)
    (hend : LineEndAt u r) : ∃ k, readLineParts s = .ok ⟨ps, r, k⟩ := by
  induction h with
  | nil =>
    cases hend with
    | newline => exact ⟨by simp, by rw [readLineParts]; simp⟩
    | endOfText => exact ⟨by simp, by rw [readLineParts]⟩
  | cons h _ ih => exact h.read (ih hend)

theorem LineEndAt.eq_drop {s t u r : Text} (h : IsRun isLineChar s t u) (hend : LineEndAt u r) :
    r = u.drop 1 := by
  cases hend <;> rfl

theorem LineAt.read {l : Line} {s r : Text} (h : LineAt l s r) :
    ∃ k, readLine s = .ok ⟨l, r, k⟩ := by
  cases h with
  | elided hb h hend =>
    rename_i b v t u
    have hdrop : (b ++ '$' :: '-' :: '-' :: v).dropWhile isBlank = '$' :: '-' :: '-' :: v := by
      rw [List.dropWhile_append_of_pos hb, List.dropWhile_cons]
      rfl
    have hskip : skipCommentLine? ('$' :: '-' :: '-' :: v) = some r := by
      simp [skipCommentLine?, comment?, h.dropWhile_eq, hend.eq_drop h]
    exact readLine_of_comment (by rw [hdrop, hskip])
  | content h hne hps hend =>
    have hps' := hps.read hend
    rw [← h.dropWhile_eq] at hps' hne
    obtain ⟨k, hps'⟩ := hps'
    rw [← h.takeWhile_eq]
    exact readLine_of_ok (skipCommentLine?_eq_none.2 hne) hps'

theorem Template.Derives.read {t : Template} {s : Text} (h : t.Derives s) :
    Template.read s = .ok t := by
  induction h with
  | nil => rw [Template.read]
  | cons h hne _ ih =>
    rename_i s r l ls _
    cases s with
    | nil => exact absurd rfl (h.ne_nil hne)
    | cons c s =>
      obtain ⟨k, hl⟩ := h.read
      rw [Template.read]
      simp only [hl, ih]

/-! ## The grammar decides what is read -/

/-- A text is read as a template exactly where the grammar derives it. -/
theorem Template.read_eq_ok_iff {t : Template} {s : Text} :
    Template.read s = .ok t ↔ t.Derives s := by
  constructor
  · intro h; exact (Template.read_yields s).of_ok h
  · intro h; exact h.read

/-- The grammar derives at most one template from a text. -/
theorem Template.Derives.unique {t t' : Template} {s : Text} (h : t.Derives s)
    (h' : t'.Derives s) : t = t' := by
  have := h.read.symm.trans h'.read
  exact Except.ok.inj this

theorem Template.not_derives_of_read {t : Truncation} {s : Text}
    (h : Template.read s = .error t) (t' : Template) : ¬ t'.Derives s := by
  intro h'
  rw [h'.read] at h
  cases h

end TextTemplate

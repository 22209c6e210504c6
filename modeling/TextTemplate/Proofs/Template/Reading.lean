import TextTemplate.Proofs.Template.Places

/-!
# Reading follows the grammar

What the readers of a template's text yield: where they succeed a derivation of the grammar, and where they
fail a fault that lies in the text, behind all that was complete.

Main results:
* `readExpansion_yields`, `readPart_yields`, `readWord_yields`, `readWords_yields`: expansions and words.
* `readLine_yields`, `Template.read_yields`: lines and templates.
-/

namespace TextTemplate

/-! ## Specification -/

/-- An attempt yields what `P` holds of, or a truncation that `Q` holds of. -/
def Yields {α : Type} (x : Except Truncation α) (P : α → Prop) (Q : Truncation → Prop) : Prop :=
  match x with
  | .ok a => P a
  | .error t => Q t

namespace Yields

variable {α : Type} {x : Except Truncation α} {P : α → Prop} {Q : Truncation → Prop}

theorem of_ok {a : α} (h : Yields x P Q) (k : x = .ok a) : P a := by
  rw [k] at h; exact h

theorem of_error {t : Truncation} (h : Yields x P Q) (k : x = .error t) : Q t := by
  rw [k] at h; exact h

end Yields

namespace Truncation

/-- What the grammar of templates can miss in a text. -/
def errors : List SyntaxError :=
  Quoted.errors ++
    [.noExpansion, .noDirectiveWord, .noDirectiveEnd, .noVariableName, .noVariableEnd]

/-- The fault lies in `s`, and the complete parts stand in `s` before it. -/
structure LiesIn (t : Truncation) (s : Text) : Prop where
  /-- The fault lies in the text. -/
  fault : t.fault.rest <:+ s
  /-- It is one of the grammar. -/
  error : t.fault.error ∈ errors
  /-- The references and directives that are complete lie before it. -/
  before : ∀ u ∈ startsOfParts t.before, DollarBefore s t.fault.rest u

/-- The fault and the complete parts lie in `s`, and the expansions among these parts stand in it. -/
structure ReadIn (t : Truncation) (s : Text) : Prop extends t.LiesIn s where
  /-- The complete expansions stand in the text. -/
  placed : PlacedIn s t.before

theorem ReadIn.mono {t : Truncation} {s s' : Text} (h : t.ReadIn s) (hs : s <:+ s') :
    t.ReadIn s' where
  fault := h.fault.trans hs
  error := h.error
  before := fun u hu => (h.before u hu).mono hs List.suffix_rfl
  placed := h.placed.mono hs

theorem ReadIn.after {t : Truncation} {s r : Text} {ps : List Part} (h : t.ReadIn r) (hr : r <:+ s)
    (hp : ∀ u ∈ startsOfParts ps, DollarBefore s r u) (hplaced : PlacedIn s ps) : (t.after ps).ReadIn s where
  fault := h.fault.trans hr
  error := h.error
  before := by
    intro u hu
    rw [Truncation.after, startsOfParts_append, List.mem_append] at hu
    rcases hu with hu | hu
    · exact (hp u hu).mono List.suffix_rfl h.fault
    · exact (h.before u hu).mono hr List.suffix_rfl
  placed := hplaced.append (h.placed.mono hr)

theorem readIn_ofFault {f : Fault} {s : Text} (h : f.rest <:+ s) (herror : f.error ∈ errors) :
    (ofFault f).ReadIn s where
  fault := h
  error := herror
  before := by simp [ofFault, startsOfParts]
  placed := .nil s

end Truncation

/-! ## Expansions and words -/

theorem startsPart_eq_false_iff {c : Char} :
    startsPart c = false ↔ c ≠ '$' ∧ isQuote c = false ∧ isBarewordChar c = false := by
  simp [startsPart, Bool.or_eq_false_iff, and_assoc]

theorem WordsAt.eq_of_nil {s r : Text} (h : WordsAt [] s r) : s = r := by
  cases h
  rfl

mutual

theorem readExpansion_yields (s : Text) :
    Yields (readExpansion s) (fun R => ExpansionAt R.value ('$' :: s) R.rest)
      (Truncation.ReadIn · ('$' :: s)) := by
  unfold readExpansion
  split
  · rename_i r
    have hr : r.dropWhile isGap <:+ '$' :: '(' :: r :=
      suffix_cons_of _ (suffix_cons_of _ (List.dropWhile_suffix _))
    have ih := readWords_yields (r.dropWhile isGap)
    split
    · rename_i h; exact (ih.of_error h).mono hr
    · rename_i words u hu h
      obtain ⟨g', hg', hw⟩ := ih.of_ok h
      have hd := ExpansionAt.directive (isRun_takeWhile isGap r).all hw hg'
      rw [List.takeWhile_append_dropWhile] at hd
      exact hd
  · rename_i r
    have hr : r <:+ '$' :: '{' :: r := suffix_cons_of _ (List.suffix_cons _ _)
    have ih := readWord_yields r
    split
    · rename_i h; exact (ih.of_error h).mono hr
    · exact Truncation.readIn_ofFault hr (by simp [Truncation.errors])
    · rename_i name u hu h
      have hw : WordAt name r u := ih.of_ok h
      have hopen : Truncation.ReadIn ⟨name, u, .noVariableEnd⟩ ('$' :: '{' :: r) := by
        obtain ⟨hu', hs⟩ := hw.starts
        exact ⟨⟨hu'.trans hr, by simp [Truncation.errors], fun v hv => (hs v hv).mono hr List.suffix_rfl⟩,
          hw.placedIn.mono hr⟩
      split
      · exact hopen
      · split_ifs with hc
        · subst hc; exact .reference hw
        · exact hopen
  · exact .dollar
  · exact .join
  · rename_i r; exact .comment (isRun_takeWhile isLineChar r)
  · exact Truncation.readIn_ofFault (List.suffix_cons _ _) (by simp [Truncation.errors])
termination_by (s.length, 0)
decreasing_by
  all_goals
    have := length_dropWhile_le isGap
    simp only [Prod.lex_def]
    grind

theorem readPart_yields (s : Text) :
    Yields (readPart s)
      (fun o => match o with
        | some R => PartAt R.value s R.rest
        | none => ∀ c ∈ s.head?, startsPart c = false)
      (Truncation.ReadIn · s) := by
  unfold readPart
  split
  · intro c hc; cases hc
  · rename_i c r
    split_ifs with hd hq hb
    · subst hd
      have ih := readExpansion_yields r
      split
      · rename_i h; exact ih.of_error h
      · rename_i h; exact .expansion (ih.of_ok h)
    · split
      · rename_i h
        obtain ⟨hrest, herror⟩ := Quoted.fault_of_read h
        exact Truncation.readIn_ofFault (suffix_cons_of _ hrest) (List.mem_append_left _ herror)
      · rename_i h
        obtain ⟨w, hw, rfl⟩ := Quoted.writes_of_read h
        exact .quoted hq hw
    · exact .bareword (isRun_cons hb) (List.cons_ne_nil _ _)
    · intro c' hc'
      obtain rfl : c = c' := by simpa using hc'
      exact startsPart_eq_false_iff.2 ⟨hd, by simpa using hq, by simpa using hb⟩
termination_by (s.length, 0)
decreasing_by simp only [Prod.lex_def]; grind

theorem readWord_yields (s : Text) :
    Yields (readWord s)
      (fun o => match o with
        | some R => WordAt R.value s R.rest
        | none => ∀ c ∈ s.head?, startsPart c = false)
      (Truncation.ReadIn · s) := by
  unfold readWord
  have ih := readPart_yields s
  split
  · rename_i h; exact ih.of_error h
  · rename_i h; exact ih.of_ok h
  · rename_i p r hr h
    have hp := ih.of_ok h
    have ih' := readWord_yields r
    split
    · rename_i h'
      obtain ⟨hr', hs⟩ := PartAt.starts hp
      exact (ih'.of_error h').after hr' (by simpa [startsOfParts] using hs) (PartAt.placedIn hp)
    · rename_i h'; exact .last hp (ih'.of_ok h')
    · rename_i h'; exact .cons hp (ih'.of_ok h')
termination_by (s.length, 1)
decreasing_by all_goals simp only [Prod.lex_def]; grind

theorem readWords_yields (s : Text) :
    Yields (readWords s)
      (fun R => ∃ g, (∀ c ∈ g, isGap c = true) ∧ WordsAt R.value s (g ++ ')' :: R.rest))
      (Truncation.ReadIn · s) := by
  unfold readWords
  have ih := readWord_yields s
  split
  · rename_i h; exact ih.of_error h
  · split
    · exact ⟨[], by simp, .nil⟩
    · exact Truncation.readIn_ofFault List.suffix_rfl (by simp [Truncation.errors])
  · rename_i w r hr h
    have hw : WordAt w s r := ih.of_ok h
    obtain ⟨hr', hs⟩ := hw.starts
    split
    · exact ⟨⟨hr', by simp [Truncation.errors], hs⟩, hw.placedIn⟩
    · rename_i c u _
      split_ifs with hc hg
      · subst hc; exact ⟨[], by simp, .last hw⟩
      · have ih' := readWords_yields (u.dropWhile isGap)
        have hu : u.dropWhile isGap <:+ c :: u := suffix_cons_of _ (List.dropWhile_suffix _)
        split
        · rename_i h'
          exact (ih'.of_error h').after (hu.trans hr') (fun v hv => (hs v hv).mono List.suffix_rfl hu)
            hw.placedIn
        · rename_i ws v hv h'
          obtain ⟨g', hg', hws⟩ := ih'.of_ok h'
          have hgap := isRun_cons (s := u) hg
          cases ws with
          | nil =>
            -- only the gap stood between the word and the closing parenthesis
            refine ⟨c :: u.takeWhile isGap, hgap.all, ?_⟩
            have hnil : u.dropWhile isGap = g' ++ ')' :: v := hws.eq_of_nil
            cases g' with
            | nil =>
              rw [List.nil_append] at hnil
              rw [← hnil, ← hgap.split]
              exact .last hw
            | cons d g' =>
              have := (isRun_takeWhile isGap u).stop d (by rw [hnil]; rfl)
              rw [hg' d List.mem_cons_self] at this
              cases this
          | cons w' ws =>
            rw [hgap.split] at hw
            exact ⟨g', hg', .cons hw (List.cons_ne_nil _ _) hgap.all hws⟩
      · exact ⟨⟨hr', by simp [Truncation.errors], hs⟩, hw.placedIn⟩
termination_by (s.length, 2)
decreasing_by
  all_goals
    have := length_dropWhile_le isGap
    simp only [Prod.lex_def]
    grind

end

/-! ## Lines -/

theorem readLineParts_yields (s : Text) :
    Yields (readLineParts s) (fun R => ∃ u, PiecesAt R.value s u ∧ LineEndAt u R.rest)
      (Truncation.ReadIn · s) := by
  unfold readLineParts
  split
  · exact ⟨[], .nil, .endOfText⟩
  · rename_i c r
    split_ifs with hn hd
    · subst hn; exact ⟨_, .nil, .newline⟩
    · subst hd
      have ih := readExpansion_yields r
      split
      · rename_i h; exact ih.of_error h
      · rename_i e u hu h
        have he : ExpansionAt e ('$' :: r) u := ih.of_ok h
        obtain ⟨⟨v, hv, hr⟩, hs⟩ := he.starts
        have ih' := readLineParts_yields u
        split
        · rename_i h'
          refine (ih'.of_error h').after ?_ ?_ he.placedIn
          · rw [hv]; exact suffix_cons_of _ hr
          · simpa [startsOfParts, Part.starts] using hs
        · rename_i h'
          obtain ⟨w, hw, hend⟩ := ih'.of_ok h'
          exact ⟨w, .cons (.expansion he) hw, hend⟩
    · have hlit : isLiteralChar c = true := by simp [isLiteralChar, hn, hd]
      have hrun := isRun_cons (s := r) hlit
      have ih := readLineParts_yields (r.dropWhile isLiteralChar)
      split
      · rename_i h; exact (ih.of_error h).mono hrun.suffix
      · rename_i h
        obtain ⟨w, hw, hend⟩ := ih.of_ok h
        exact ⟨w, .cons (.literal hrun (List.cons_ne_nil _ _)) hw, hend⟩
termination_by s.length
decreasing_by
  all_goals
    have := length_dropWhile_le isLiteralChar
    grind

/-- A run up to a newline ends with the line. -/
theorem lineEndAt_drop {s t u : Text} (h : IsRun isLineChar s t u) : LineEndAt u (u.drop 1) := by
  cases u with
  | nil => exact .endOfText
  | cons c u =>
    have hc := h.stop c rfl
    obtain rfl : c = '\n' := by simpa [isLineChar] using hc
    exact .newline

theorem skipCommentLine?_eq_some {s r : Text} (h : skipCommentLine? s = some r) :
    ∃ u, s = '$' :: '-' :: '-' :: u ∧ r = (u.dropWhile isLineChar).drop 1 := by
  unfold skipCommentLine? at h
  split at h
  · obtain ⟨v, hv, rfl⟩ := Option.map_eq_some_iff.1 h
    unfold comment? at hv
    split at hv
    · cases hv; exact ⟨_, rfl, rfl⟩
    · cases hv
  · cases h

theorem skipCommentLine?_eq_none {s : Text} :
    skipCommentLine? s = none ↔ ¬ ['$', '-', '-'] <+: s := by
  constructor
  · rintro h ⟨u, rfl⟩
    cases h
  · intro h
    by_contra hne
    obtain ⟨r, hr⟩ := Option.ne_none_iff_exists'.1 hne
    obtain ⟨u, rfl, -⟩ := skipCommentLine?_eq_some hr
    exact h ⟨u, rfl⟩

/-- Where a comment fills the line, the line is elided. -/
theorem readLine_of_comment {s r : Text} (hskip : skipCommentLine? (s.dropWhile isBlank) = some r) :
    ∃ k, readLine s = .ok ⟨.elided, r, k⟩ := by
  have hlt := (length_lt_of_skipCommentLine? hskip).trans_le (length_dropWhile_le isBlank s)
  unfold readLine
  split
  · rename_i r' h'
    cases hskip.symm.trans h'
    exact ⟨by omega, rfl⟩
  · rename_i h'; rw [hskip] at h'; cases h'

/-- Where no comment fills the line, its parts decide how the line is read. -/
theorem readLine_of_error {s : Text} {t : Truncation} (hskip : skipCommentLine? (s.dropWhile isBlank) = none)
    (h : readLineParts (s.dropWhile isBlank) = .error t) : readLine s = .error t := by
  unfold readLine
  split
  · rename_i h'; rw [hskip] at h'; cases h'
  · simp only [h]

theorem readLine_of_ok {s : Text} {R : Reading (List Part) (max 1 (s.dropWhile isBlank).length)}
    (hskip : skipCommentLine? (s.dropWhile isBlank) = none) (h : readLineParts (s.dropWhile isBlank) = .ok R) :
    ∃ k, readLine s = .ok ⟨.content (s.takeWhile isBlank) R.value, R.rest, k⟩ := by
  obtain ⟨ps, r, k⟩ := R
  have hlt := length_dropWhile_le isBlank s
  unfold readLine
  split
  · rename_i h'; rw [hskip] at h'; cases h'
  · simp only [h]
    exact ⟨by omega, trivial⟩

theorem readLine_yields (s : Text) :
    Yields (readLine s) (fun R => LineAt R.value s R.rest) (Truncation.ReadIn · s) := by
  have hrun := isRun_takeWhile isBlank s
  unfold readLine
  split
  · rename_i r h
    obtain ⟨u, hu, rfl⟩ := skipCommentLine?_eq_some h
    have hline := LineAt.elided hrun.all (isRun_takeWhile isLineChar u)
      (lineEndAt_drop (isRun_takeWhile isLineChar u))
    rw [← hu, ← hrun.split] at hline
    exact hline
  · rename_i h
    have ih := readLineParts_yields (s.dropWhile isBlank)
    split
    · rename_i h'; exact (ih.of_error h').mono hrun.suffix
    · rename_i h'
      obtain ⟨u, hu, hend⟩ := ih.of_ok h'
      exact .content hrun (skipCommentLine?_eq_none.1 h) hu hend

theorem Template.read_yields (s : Text) :
    Yields (Template.read s) (fun t => t.Derives s) (Truncation.ReadIn · s) := by
  unfold Template.read
  split
  · exact .nil
  · rename_i c r
    have ih := readLine_yields (c :: r)
    split
    · rename_i h; exact ih.of_error h
    · rename_i l u hu h
      have hl : LineAt l (c :: r) u := ih.of_ok h
      have hne : u ≠ c :: r := by
        rintro rfl
        simp at hu
      obtain ⟨hr, hs⟩ := hl.starts
      have ih' := Template.read_yields u
      split
      · rename_i h'; exact (ih'.of_error h').after hr hs hl.placedIn
      · rename_i h'; exact .cons hl hne (ih'.of_ok h')
termination_by s.length
decreasing_by grind

end TextTemplate

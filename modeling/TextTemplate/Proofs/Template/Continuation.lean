import TextTemplate.Proofs.Template.Acceptance
import TextTemplate.Proofs.Template.Boundary
import TextTemplate.Proofs.Text.Lines

/-!
# Reading on behind the end of a line

A text that ends its line and is no template stays none in front of more text, for the same fault, unless the fault
is that a directive is open at the end of the text. Then anything can follow, but what was complete by then is
evaluated first.

Main results:
* `Continues.step`: one reader goes on from another.
* `readExpansion_continues`, `readWords_continues`, `Template.read_continues`: what becomes of a truncation.
-/

namespace TextTemplate

/-! ## Specification -/

/-- With `x` behind a text of which `t` was read, `y` is read: the same, if the fault of `t` is not at the end of
    the text; and if it is, something that evaluates the complete parts of `t` first. What it means for a
    value that was read to be evaluated behind an inquiry is said by `P`. -/
structure Continues {α : Type} (x : Text) (t : Truncation) (y : Except Truncation α)
    (P : Semantics → Inquiry Failure Text → α → Prop) : Prop where
  /-- A fault before the end stays. -/
  closed : t.fault.rest ≠ [] → y = .error (t.inFrontOf x)
  /-- Behind a fault at the end the text goes on. -/
  opened : t.fault.rest = [] → ∀ m,
    Yields y (P m (evalParts m (partsInFrontOf x t.before))) fun t' =>
      (evalParts m (partsInFrontOf x t.before)).Precedes (evalParts m t'.before)

/-! ## What is evaluated first -/

section Precedes

variable {m : Semantics} {β : Type}

theorem evalParts_append_precedes {qs : List Part} {f : Text → Inquiry Failure β} (ps : List Part)
    (h : ∀ u, (evalParts m qs).Precedes (f u)) :
    (evalParts m (ps ++ qs)).Precedes ((evalParts m ps).bind f) := by
  rw [evalParts_append]
  exact Inquiry.bind_precedes _ fun u => (h u).map _

theorem precedes_parts {z : Inquiry Failure β} {ps : List Part} (h : z.Precedes (evalParts m ps))
    (qs : List Part) : z.Precedes (evalParts m (ps ++ qs)) := by
  rw [evalParts_append]
  exact h.bind _

theorem precedes_part {z : Inquiry Failure β} {p : Part} (h : z.Precedes (p.eval m))
    (ps : List Part) : z.Precedes (evalParts m (p :: ps)) := by
  rw [evalParts]
  exact h.bind _

theorem evalParts_append_precedes_parts {qs rs : List Part} (ps : List Part)
    (h : (evalParts m qs).Precedes (evalParts m rs)) :
    (evalParts m (ps ++ qs)).Precedes (evalParts m (ps ++ rs)) := by
  rw [evalParts_append m ps rs]
  exact evalParts_append_precedes ps fun u => h.bind _

theorem precedes_words {z : Inquiry Failure β} {w : Word} (h : z.Precedes (evalParts m w))
    (ws : List Word) : z.Precedes (evalWords m (w :: ws)) := by
  rw [evalWords]
  exact h.bind _

theorem evalParts_append_precedes_words {qs : List Part} {ws : List Word} (w : Word)
    (h : (evalParts m qs).Precedes (evalWords m ws)) :
    (evalParts m (w ++ qs)).Precedes (evalWords m (w :: ws)) := by
  rw [evalWords]
  exact evalParts_append_precedes w fun u => h.bind _

theorem precedes_line {z : Inquiry Failure β} {l : Line} (h : z.Precedes (evalParts m l.parts)) :
    z.Precedes (l.eval m) := by
  cases l with
  | elided => exact h
  | content indent parts => exact h.bind _

theorem evalParts_append_precedes_template {qs : List Part} {ls : Template} (l : Line)
    (h : (evalParts m qs).Precedes (Template.eval m ls)) :
    (evalParts m (l.parts ++ qs)).Precedes (Template.eval m (l :: ls)) := by
  cases l with
  | elided => exact h.bind _
  | content indent parts =>
    rw [Template.eval_cons, Line.eval_content, Inquiry.bind_assoc]
    exact evalParts_append_precedes parts fun u => h.bind _

end Precedes

namespace Continues

variable {α β : Type} {x : Text} {t : Truncation} {y : Except Truncation α} {z : Except Truncation β}
  {P : Semantics → Inquiry Failure Text → α → Prop} {P' : Semantics → Inquiry Failure Text → β → Prop}

/-- A reader goes on from what another has read, behind the complete parts `ps`. -/
theorem step (h : Continues x t y P) (ps : List Part)
    (herror : ∀ t', y = .error t' → z = .error (t'.after (partsInFrontOf x ps)))
    (hok : ∀ a, y = .ok a → ∀ m qs, P m (evalParts m qs) a →
      Yields z (P' m (evalParts m (partsInFrontOf x ps ++ qs))) fun t' =>
        (evalParts m (partsInFrontOf x ps ++ qs)).Precedes (evalParts m t'.before)) :
    Continues x (t.after ps) z P' where
  closed := by
    intro hfault
    rw [herror _ (h.closed hfault), Truncation.after_inFrontOf]
  opened := by
    intro hfault m
    have hy := h.opened hfault m
    rw [Truncation.after, partsInFrontOf_append]
    cases y with
    | error t' =>
      rw [herror t' rfl]
      exact evalParts_append_precedes_parts _ hy
    | ok a => exact hok a rfl m _ hy

/-- A reader goes on from what another has read. -/
theorem map (h : Continues x t y P) (herror : ∀ t', y = .error t' → z = .error t')
    (hok : ∀ a, y = .ok a → ∀ m qs, P m (evalParts m qs) a →
      Yields z (P' m (evalParts m qs)) fun t' => (evalParts m qs).Precedes (evalParts m t'.before)) :
    Continues x t z P' := by
  refine h.step [] herror fun a ha m qs hP => ?_
  rw [partsInFrontOf, List.nil_append]
  exact hok a ha m qs hP

/-- A fault that lies before the end. -/
theorem of_closed {f : Fault} {ps : List Part} (hfault : f.rest ≠ [])
    (hy : y = .error ⟨partsInFrontOf x ps, f.inFrontOf x⟩) : Continues x ⟨ps, f⟩ y P where
  closed := fun _ => hy
  opened := fun h => absurd h hfault

/-- Before a fault at the very start nothing is complete. -/
theorem of_nil (error : SyntaxError) (hP : ∀ m a, P m (.pure []) a) :
    Continues x (.ofFault ⟨[], error⟩) y P where
  closed := fun h => absurd rfl h
  opened := by
    intro _ m
    cases y with
    | error t' => exact Inquiry.pure_precedes _ _
    | ok a => exact hP m a

end Continues

/-! ## Faults of expansions and words -/

theorem Quoted.read_error_append {q : Char} (hq : isQuote q = true) {s : Text} (hs : '\n' ∈ s)
    {f : Fault} (h : read q s = .error f) (x : Text) :
    f.rest ≠ [] ∧ read q (s ++ x) = .error (f.inFrontOf x) := by
  obtain ⟨l, r, rfl, hl⟩ := List.eq_append_cons_of_mem hs
  rw [List.append_assoc, List.cons_append, read_append hq hl (.newline _)]
  rw [read_append hq hl (.newline _)] at h
  cases hread : read q l with
  | ok v => rw [hread] at h; cases h
  | error g =>
    rw [hread] at h
    cases h
    exact ⟨by simp, by simp [TextTemplate.inFrontOf, Fault.inFrontOf]⟩

/-- What does not start a part does not start one in front of more text. -/
theorem readWord_append_eq_none {s : Text} (h : readWord s = .ok none) (hs : s ≠ []) (x : Text) :
    readWord (s ++ x) = .ok none := by
  have hstart : ∀ c ∈ s.head?, startsPart c = false := (readWord_yields s).of_ok h
  obtain ⟨c, r, rfl⟩ := List.exists_cons_of_ne_nil hs
  exact readWord_eq_none hstart

theorem readWords_eq_noDirectiveWord {s : Text} (h : readWord s = .ok none)
    (hclose : ∀ r, s ≠ ')' :: r) : readWords s = .error (.ofFault ⟨s, .noDirectiveWord⟩) := by
  unfold readWords
  rw [h]
  simp only

theorem readExpansion_eq_noExpansion {s : Text} (hopen : ∀ r, s ≠ '(' :: r)
    (hbrace : ∀ r, s ≠ '\x7b' :: r) (hdollar : ∀ r, s ≠ '$' :: r) (hnewline : ∀ r, s ≠ '\n' :: r)
    (hdashes : ∀ r, s ≠ '-' :: '-' :: r) :
    readExpansion s = .error (.ofFault ⟨s, .noExpansion⟩) := by
  unfold readExpansion
  split
  · rename_i r; exact absurd rfl (hopen r)
  · rename_i r; exact absurd rfl (hbrace r)
  · rename_i r; exact absurd rfl (hdollar r)
  · rename_i r; exact absurd rfl (hnewline r)
  · rename_i r; exact absurd rfl (hdashes r)
  · rfl

/-- A dollar sign that starts no expansion starts none in front of more text. -/
theorem readExpansion_append_noExpansion {s : Text} (hs : EndsLine ('$' :: s))
    (hopen : ∀ r, s ≠ '(' :: r) (hbrace : ∀ r, s ≠ '\x7b' :: r) (hdollar : ∀ r, s ≠ '$' :: r)
    (hnewline : ∀ r, s ≠ '\n' :: r) (hdashes : ∀ r, s ≠ '-' :: '-' :: r) (x : Text) :
    s ≠ [] ∧ readExpansion (s ++ x) = .error (.ofFault ⟨s ++ x, .noExpansion⟩) := by
  have hmem := hs.newline_mem (List.cons_ne_nil _ _)
  cases s with
  | nil => exact absurd hmem (by decide)
  | cons c s =>
    refine ⟨List.cons_ne_nil _ _, readExpansion_eq_noExpansion ?_ ?_ ?_ ?_ ?_⟩
    · intro r h; cases h; exact hopen s rfl
    · intro r h; cases h; exact hbrace s rfl
    · intro r h; cases h; exact hdollar s rfl
    · intro r h; cases h; exact hnewline s rfl
    · intro r h
      obtain ⟨rfl, h⟩ := List.cons.inj h
      cases s with
      | nil => exact absurd hmem (by decide)
      | cons d s => cases h; exact hdashes s rfl

/-! ## Expansions and words read on -/

mutual

theorem readExpansion_continues {s : Text} {t : Truncation} (h : readExpansion s = .error t)
    (hs : EndsLine ('$' :: s)) (x : Text) :
    Continues x t (readExpansion (s ++ x)) fun m z R => z.Precedes (R.value.eval m) := by
  unfold readExpansion at h
  split at h
  · rename_i r
    have hr : EndsLine r := hs.of_append (t := ['$', '(']) (by decide)
    split at h
    · rename_i t' ht'
      cases h
      refine (readWords_gap_continues ht' hr x).map ?_ ?_
      · intro t'' hy
        rw [List.cons_append, readExpansion]
        simp only [hy]
      · intro R hy m qs hP
        rw [List.cons_append, readExpansion]
        simp only [hy]
        exact hP.bind _
    · cases h
  · rename_i r
    have hr : EndsLine r := hs.of_append (t := ['$', '\x7b']) (by decide)
    have hne : r ≠ [] := hs.ne_nil_of_append (t := ['$', '\x7b']) rfl (by decide)
    split at h
    · rename_i t' ht'
      cases h
      refine (readWord_continues ht' hr x).map ?_ ?_
      · intro t'' hy
        rw [List.cons_append, readExpansion]
        simp only [hy]
      · rintro _ hy m qs ⟨⟨w, u, k⟩, rfl, hP⟩
        rw [List.cons_append, readExpansion]
        simp only [hy]
        split
        · exact hP
        · split_ifs with hc
          · exact hP.bind _
          · exact hP
    · rename_i hnone
      cases h
      refine .of_closed hne ?_
      rw [List.cons_append, readExpansion, readWord_append_eq_none hnone hne x]
      rfl
    · rename_i w u k hw
      have hword : WordAt w r u := (readWord_yields r).of_ok hw
      obtain ⟨⟨-, hu⟩, hword'⟩ := hword.append hr x
      obtain ⟨k', hw'⟩ := hword'.read
      obtain ⟨c, u, rfl⟩ := List.exists_cons_of_ne_nil hu
      simp only at h
      split_ifs at h with hc
      cases h
      refine .of_closed hu ?_
      rw [List.cons_append, readExpansion, hw']
      simp only [List.cons_append, if_neg hc]
      rfl
  · cases h
  · cases h
  · cases h
  · rename_i hopen hbrace hdollar hnewline hdashes
    cases h
    obtain ⟨hne, hy⟩ := readExpansion_append_noExpansion hs hopen hbrace hdollar hnewline hdashes x
    exact .of_closed hne hy
termination_by (s.length, 0)
decreasing_by
  all_goals
    simp only [Prod.lex_def]
    grind

theorem readPart_continues {s : Text} {t : Truncation} (h : readPart s = .error t)
    (hs : EndsLine s) (x : Text) :
    Continues x t (readPart (s ++ x)) fun m z o => ∃ R, o = some R ∧ z.Precedes (R.value.eval m) := by
  unfold readPart at h
  split at h
  · cases h
  · rename_i c r
    split_ifs at h with hd hq hb
    · subst hd
      split at h
      · rename_i t' ht'
        cases h
        refine (readExpansion_continues ht' hs x).map ?_ ?_
        · intro t'' hy
          rw [List.cons_append, readPart]
          simp only [if_true, hy]
        · intro R hy m qs hP
          rw [List.cons_append, readPart]
          simp only [if_true, hy]
          exact ⟨_, rfl, hP⟩
      · cases h
    · split at h
      · rename_i f hf
        cases h
        have hmem : '\n' ∈ r := by
          rcases List.mem_cons.1 (hs.newline_mem (List.cons_ne_nil _ _)) with rfl | hmem
          · exact absurd hq (by decide)
          · exact hmem
        obtain ⟨hne, hy⟩ := Quoted.read_error_append hq hmem hf x
        refine .of_closed hne ?_
        rw [List.cons_append, readPart]
        simp only [if_neg hd, if_pos hq]
        split
        · rename_i h'; rw [hy] at h'; cases h'; rfl
        · rename_i h'; rw [hy] at h'; cases h'
      · cases h
termination_by (s.length, 0)
decreasing_by
  simp only [Prod.lex_def]
  grind

theorem readWord_continues {s : Text} {t : Truncation} (h : readWord s = .error t)
    (hs : EndsLine s) (x : Text) :
    Continues x t (readWord (s ++ x)) fun m z o =>
      ∃ R, o = some R ∧ z.Precedes (evalParts m R.value) := by
  unfold readWord at h
  split at h
  · rename_i t' ht'
    cases h
    refine (readPart_continues ht' hs x).map ?_ ?_
    · intro t'' hy
      unfold readWord
      rw [hy]
    · rintro _ hy m qs ⟨⟨p, r, k⟩, rfl, hP⟩
      unfold readWord
      rw [hy]
      simp only
      split
      · exact precedes_part hP _
      · exact ⟨_, rfl, precedes_part hP _⟩
      · exact ⟨_, rfl, precedes_part hP _⟩
  · cases h
  · rename_i p r k hp
    split at h
    · rename_i t' ht'
      cases h
      have hpart : PartAt p s r := (readPart_yields s).of_ok hp
      obtain ⟨⟨hr, -⟩, hpart'⟩ := hpart.append hs x
      obtain ⟨k', hp'⟩ := hpart'.read
      refine (readWord_continues ht' hr x).step [p] ?_ ?_
      · intro t'' hy
        unfold readWord
        rw [hp']
        simp only [hy]
        rfl
      · rintro _ hy m qs ⟨⟨w, u, k''⟩, rfl, hP⟩
        unfold readWord
        rw [hp']
        simp only [hy]
        exact ⟨_, rfl, evalParts_append_precedes_parts [p.inFrontOf x] hP⟩
    · cases h
    · cases h
termination_by (s.length, 1)
decreasing_by
  all_goals
    simp only [Prod.lex_def]
    grind

theorem readWords_continues {s : Text} {t : Truncation} (h : readWords s = .error t)
    (hs : EndsLine s) (x : Text) :
    Continues x t (readWords (s ++ x)) fun m z R => z.Precedes (evalWords m R.value) := by
  unfold readWords at h
  split at h
  · rename_i t' ht'
    cases h
    refine (readWord_continues ht' hs x).map ?_ ?_
    · intro t'' hy
      unfold readWords
      rw [hy]
    · rintro _ hy m qs ⟨⟨w, r, k⟩, rfl, hP⟩
      unfold readWords
      rw [hy]
      simp only
      split
      · exact hP
      · split_ifs
        · exact precedes_words hP _
        · split
          · exact precedes_parts hP _
          · exact precedes_words hP _
        · exact hP
  · rename_i hnone
    split at h
    · cases h
    · rename_i hclose
      cases h
      by_cases hne : s = []
      · subst hne
        exact .of_nil _ fun m R => Inquiry.pure_precedes _ _
      · refine .of_closed hne ?_
        refine readWords_eq_noDirectiveWord (readWord_append_eq_none hnone hne x) ?_
        obtain ⟨c, s, rfl⟩ := List.exists_cons_of_ne_nil hne
        rintro r hr
        cases hr
        exact hclose s rfl
  · rename_i w r k hw
    have hword : WordAt w s r := (readWord_yields s).of_ok hw
    obtain ⟨⟨hr, hne⟩, hword'⟩ := hword.append hs x
    obtain ⟨k', hw'⟩ := hword'.read
    obtain ⟨c, u, rfl⟩ := List.exists_cons_of_ne_nil hne
    simp only at h
    split_ifs at h with hc hg
    · split at h
      · rename_i t' ht'
        cases h
        have hu : EndsLine u := hr.of_cons (by rintro rfl; exact absurd hg (by decide))
        refine (readWords_gap_continues ht' hu x).step w ?_ ?_
        · intro t'' hy
          unfold readWords
          rw [hw']
          simp only [List.cons_append, if_neg hc, if_pos hg, hy]
        · intro R hy m qs hP
          unfold readWords
          rw [hw']
          simp only [List.cons_append, if_neg hc, if_pos hg, hy]
          exact evalParts_append_precedes_words _ hP
      · cases h
    · cases h
      refine .of_closed hne ?_
      unfold readWords
      rw [hw']
      simp only [List.cons_append, if_neg hc, if_neg hg]
      rfl
termination_by (s.length, 2)
decreasing_by
  all_goals
    simp only [Prod.lex_def]
    grind

/-- Words behind a gap, which may go on in the text put behind. -/
theorem readWords_gap_continues {s : Text} {t : Truncation}
    (h : readWords (s.dropWhile isGap) = .error t) (hs : EndsLine s) (x : Text) :
    Continues x t (readWords ((s ++ x).dropWhile isGap)) fun m z R =>
      z.Precedes (evalWords m R.value) := by
  have hrun := isRun_takeWhile isGap s
  by_cases hne : s.dropWhile isGap = []
  · rw [hne, readWords_eq_noDirectiveWord (readWord_eq_none (by simp)) (by simp)] at h
    cases h
    exact .of_nil _ fun m R => Inquiry.pure_precedes _ _
  · rw [(hrun.inFrontOf (.inl hne)).dropWhile_eq]
    exact readWords_continues h (hrun.endsLine (by decide) hs) x
termination_by (s.length, 3)
decreasing_by
  have := length_dropWhile_le isGap s
  simp only [Prod.lex_def]
  grind

end

/-! ## Lines read on -/

theorem readLineParts_continues {s : Text} {t : Truncation} (h : readLineParts s = .error t)
    (hs : EndsLine s) (x : Text) :
    Continues x t (readLineParts (s ++ x)) fun m z R => z.Precedes (evalParts m R.value) := by
  unfold readLineParts at h
  split at h
  · cases h
  · rename_i c r
    split_ifs at h with hn hd
    · subst hd
      split at h
      · rename_i t' ht'
        cases h
        refine (readExpansion_continues ht' hs x).map ?_ ?_
        · intro t'' hy
          rw [List.cons_append, readLineParts]
          simp only [hn, if_false, if_true, hy]
        · intro R hy m qs hP
          rw [List.cons_append, readLineParts]
          simp only [hn, if_false, if_true, hy]
          split
          · exact precedes_part (p := .expansion R.value) hP _
          · exact precedes_part (p := .expansion R.value) hP _
      · rename_i e u k he
        split at h
        · rename_i t' ht'
          cases h
          have hexpansion : ExpansionAt e ('$' :: r) u := (readExpansion_yields r).of_ok he
          obtain ⟨⟨hu, -⟩, hexpansion'⟩ := hexpansion.append hs x
          obtain ⟨v, k', hv, he'⟩ := hexpansion'.read
          obtain rfl : v = r ++ x := (List.cons.inj hv).2.symm
          refine (readLineParts_continues ht' hu x).step [.expansion e] ?_ ?_
          · intro t'' hy
            rw [List.cons_append, readLineParts]
            simp only [hn, if_false, if_true, he', hy]
            rfl
          · intro R hy m qs hP
            rw [List.cons_append, readLineParts]
            simp only [hn, if_false, if_true, he', hy]
            exact evalParts_append_precedes_parts [.expansion (e.inFrontOf x)] hP
        · cases h
    · split at h
      · rename_i t' ht'
        cases h
        have hlit : isLiteralChar c = true := by simp [isLiteralChar, hn, hd]
        have hrest : r.dropWhile isLiteralChar ≠ [] := by
          intro hnil
          rw [hnil, readLineParts] at ht'
          cases ht'
        have hu := (isRun_cons hlit).endsLine (by decide) hs
        have ih := readLineParts_continues ht' hu x
        rw [← ((isRun_takeWhile isLiteralChar r).inFrontOf (.inl hrest)).dropWhile_eq] at ih
        refine ih.map ?_ ?_
        · intro t'' hy
          rw [List.cons_append, readLineParts]
          simp only [hn, hd, if_false, hy]
        · intro R hy m qs hP
          rw [List.cons_append, readLineParts]
          simp only [hn, hd, if_false, hy]
          exact hP.bind _
      · cases h
termination_by s.length
decreasing_by
  all_goals
    have := length_dropWhile_le isLiteralChar
    grind

theorem readLine_continues {s : Text} {t : Truncation} (h : readLine s = .error t)
    (hs : EndsLine s) (x : Text) :
    Continues x t (readLine (s ++ x)) fun m z R => z.Precedes (evalParts m R.value.parts) := by
  have hrun := isRun_takeWhile isBlank s
  unfold readLine at h
  split at h
  · cases h
  · rename_i hskip
    split at h
    · rename_i t' ht'
      cases h
      have hrest : s.dropWhile isBlank ≠ [] := by
        intro hnil
        rw [hnil, readLineParts] at ht'
        cases ht'
      have hu := hrun.endsLine (by decide) hs
      have hdrop := (hrun.inFrontOf (x := x) (.inl hrest)).dropWhile_eq
      have hskip' : skipCommentLine? ((s ++ x).dropWhile isBlank) = none := by
        rw [hdrop, skipCommentLine?_eq_none]
        exact not_comment_append (skipCommentLine?_eq_none.1 hskip) hu hrest x
      have ih := readLineParts_continues ht' hu x
      rw [← hdrop] at ih
      refine ih.map ?_ ?_
      · intro t'' hy
        exact readLine_of_error hskip' hy
      · intro R hy m qs hP
        obtain ⟨k, hline⟩ := readLine_of_ok hskip' hy
        rw [hline]
        exact hP
    · cases h

theorem Template.read_of_readLine_error {s : Text} {t : Truncation} (hs : s ≠ [])
    (h : readLine s = .error t) : Template.read s = .error t := by
  obtain ⟨c, r, rfl⟩ := List.exists_cons_of_ne_nil hs
  rw [Template.read]
  simp only [h]

theorem Template.read_of_readLine {s : Text} {R : Reading Line (max 1 s.length)} (hs : s ≠ [])
    (h : readLine s = .ok R) :
    Template.read s =
      match Template.read R.rest with
      | .error t => .error (t.after R.value.parts)
      | .ok ls => .ok (R.value :: ls) := by
  obtain ⟨c, r, rfl⟩ := List.exists_cons_of_ne_nil hs
  obtain ⟨l, u, k⟩ := R
  rw [Template.read]
  cases hu : Template.read u <;> simp only [h, hu]

theorem Template.read_continues {s : Text} {t : Truncation} (h : Template.read s = .error t)
    (hs : EndsLine s) (x : Text) :
    Continues x t (Template.read (s ++ x)) fun m z ls => z.Precedes (Template.eval m ls) := by
  by_cases hne : s = []
  · rw [hne, Template.read] at h
    cases h
  have hne' : s ++ x ≠ [] := fun hnil => hne (List.append_eq_nil_iff.1 hnil).1
  cases hline : readLine s with
  | error t' =>
    rw [Template.read_of_readLine_error hne hline] at h
    cases h
    refine (readLine_continues hline hs x).map ?_ ?_
    · intro t'' hy
      exact Template.read_of_readLine_error hne' hy
    · intro R hy m qs hP
      rw [Template.read_of_readLine hne' hy]
      split
      · exact precedes_parts hP _
      · exact (precedes_line hP).bind _
  | ok R =>
    rw [Template.read_of_readLine hne hline] at h
    split at h
    · rename_i t' ht'
      cases h
      have hat : LineAt R.value s R.rest := (readLine_yields s).of_ok hline
      obtain ⟨hu, hat'⟩ := hat.append hs hne x
      obtain ⟨k, hline'⟩ := hat'.read
      have hread := Template.read_of_readLine hne' hline'
      have hlt := R.length_lt
      refine (Template.read_continues ht' hu x).step R.value.parts ?_ ?_
      · intro t'' hy
        rw [hread, hy, Line.parts_inFrontOf]
      · intro ls hy m qs hP
        rw [hread, hy, ← Line.parts_inFrontOf]
        exact evalParts_append_precedes_template _ hP
    · cases h
termination_by s.length
decreasing_by
  have := List.length_pos_iff.2 hne
  omega

end TextTemplate

import TextTemplate.Proofs.Template.InFront
import TextTemplate.Proofs.Template.Places
import TextTemplate.Proofs.Text.Lines

/-!
# Derivations and the text behind them

What the grammar derives at the front of a text it derives in the same way with other text behind, as long as that does
not prolong what stands at the very end: a run of characters or a word. Where something is left behind the derivation,
or the other text begins with a newline, it does not. Taking away text that the derivation leaves is always possible.

Main results:
* `ExpansionAt.inFrontOf`, `WordAt.inFrontOf`: derivations with more text behind them.
* `ExpansionAt.of_inFrontOf`, `WordAt.of_inFrontOf`: derivations without the last part of what they leave.
-/

namespace TextTemplate

variable {x : Text}

/-! ## More text -/

mutual

theorem ExpansionAt.inFrontOf {e : Expansion} {s r : Text} (h : ExpansionAt e s r)
    (hr : r ≠ [] ∨ FollowsLine x) : ExpansionAt (e.inFrontOf x) (s ++ x) (r ++ x) := by
  cases h with
  | dollar => exact .dollar
  | join => exact .join
  | comment h => exact .comment (h.inFrontOf (hr.imp_right fun hx => hx.head?_eq_false rfl))
  | reference h => exact .reference (h.inFrontOf (.inl (List.cons_ne_nil _ _)))
  | directive hg h hg' =>
    have hw := h.inFrontOf (.inl (by simp))
    rw [List.append_assoc, List.cons_append] at hw
    have hd := ExpansionAt.directive hg hw hg'
    rw [← List.append_assoc] at hd
    exact hd

theorem PartAt.inFrontOf {p : Part} {s r : Text} (h : PartAt p s r) (hr : r ≠ [] ∨ FollowsLine x) :
    PartAt (p.inFrontOf x) (s ++ x) (r ++ x) := by
  cases h with
  | bareword h hne =>
    exact .bareword (h.inFrontOf (hr.imp_right fun hx => hx.head?_eq_false (by decide))) hne
  | quoted hq hw =>
    rename_i q w t
    have hsplit : q :: (w ++ q :: r) ++ x = q :: (w ++ q :: (r ++ x)) := by simp
    rw [hsplit]
    exact .quoted hq hw
  | expansion h => exact .expansion (h.inFrontOf hr)

theorem WordAt.inFrontOf {w : Word} {s r : Text} (h : WordAt w s r) (hr : r ≠ [] ∨ FollowsLine x) :
    WordAt (partsInFrontOf x w) (s ++ x) (r ++ x) := by
  cases h with
  | last h hstop =>
    have hnext := hr.imp_right fun hx => hx.head?_eq_false (p := startsPart) (by decide)
    exact .last (h.inFrontOf hr) (head?_append_eq_false hstop hnext)
  | cons h k => exact .cons (h.inFrontOf (hr.imp_left (ne_nil_of_suffix k.starts.1))) (k.inFrontOf hr)

theorem WordsAt.inFrontOf {ws : List Word} {s r : Text} (h : WordsAt ws s r) (hr : r ≠ [] ∨ FollowsLine x) :
    WordsAt (wordsInFrontOf x ws) (s ++ x) (r ++ x) := by
  cases h with
  | nil => exact .nil
  | last h => exact .last (h.inFrontOf hr)
  | cons h hne hg k =>
    have hw := h.inFrontOf (hr.imp_left (ne_nil_of_suffix (k.starts.1.trans (List.suffix_append _ _))))
    rw [List.append_assoc] at hw
    exact .cons hw hne hg (k.inFrontOf hr)

end

/-! ## Less text -/

mutual

theorem ExpansionAt.of_inFrontOf {e : Expansion} {s s' r r' : Text} (h : ExpansionAt e s' r')
    (hs : s' = s ++ x) (hr : r' = r ++ x) : ∃ e', ExpansionAt e' s r := by
  subst hr
  cases h with
  | dollar =>
    obtain rfl : '$' :: '$' :: r = s := List.append_cancel_right hs
    exact ⟨_, .dollar⟩
  | join =>
    obtain rfl : '$' :: '\n' :: r = s := List.append_cancel_right hs
    exact ⟨_, .join⟩
  | comment h =>
    obtain ⟨v, rfl⟩ := exists_eq_append_of_suffix h.suffix
    obtain rfl : '$' :: '-' :: '-' :: v = s := List.append_cancel_right hs
    exact ⟨_, .comment h.of_inFrontOf⟩
  | reference h =>
    obtain ⟨v, rfl⟩ := exists_eq_append_of_suffix (r := '\x7d' :: r) h.starts.1
    obtain rfl : '$' :: '\x7b' :: v = s := List.append_cancel_right hs
    obtain ⟨w, hw⟩ := h.of_inFrontOf (r := '\x7d' :: r) rfl rfl
    exact ⟨_, .reference hw⟩
  | directive hg h hg' =>
    rename_i g v' g' ws
    have hrest : g' ++ ')' :: (r ++ x) = g' ++ ')' :: r ++ x := by simp
    rw [hrest] at h
    obtain ⟨v, rfl⟩ := exists_eq_append_of_suffix h.starts.1
    rw [← List.append_assoc] at hs
    obtain rfl : '$' :: '(' :: (g ++ v) = s := List.append_cancel_right hs
    obtain ⟨ws, -, hws⟩ := h.of_inFrontOf rfl rfl
    exact ⟨_, .directive hg hws hg'⟩

theorem PartAt.of_inFrontOf {p : Part} {s s' r r' : Text} (h : PartAt p s' r')
    (hs : s' = s ++ x) (hr : r' = r ++ x) : ∃ p', PartAt p' s r := by
  subst hr
  cases h with
  | bareword h hne =>
    subst hs
    exact ⟨_, .bareword h.of_inFrontOf hne⟩
  | quoted hq hw =>
    rename_i q w t
    have hsplit : q :: (w ++ q :: (r ++ x)) = q :: (w ++ q :: r) ++ x := by simp
    obtain rfl := List.append_cancel_right (hsplit.symm.trans hs)
    exact ⟨_, .quoted hq hw⟩
  | expansion h =>
    obtain ⟨e, he⟩ := h.of_inFrontOf hs rfl
    exact ⟨_, .expansion he⟩

theorem WordAt.of_inFrontOf {w : Word} {s s' r r' : Text} (h : WordAt w s' r')
    (hs : s' = s ++ x) (hr : r' = r ++ x) : ∃ w', WordAt w' s r := by
  subst hr
  cases h with
  | last h hstop =>
    obtain ⟨p, hp⟩ := h.of_inFrontOf hs rfl
    refine ⟨_, .last hp ?_⟩
    cases r with
    | nil => simp
    | cons c r => exact hstop
  | cons h k =>
    obtain ⟨u, rfl⟩ := exists_eq_append_of_suffix k.starts.1
    obtain ⟨p, hp⟩ := h.of_inFrontOf hs rfl
    obtain ⟨w, hw⟩ := k.of_inFrontOf rfl rfl
    exact ⟨_, .cons hp hw⟩

/-- As many words are left. -/
theorem WordsAt.of_inFrontOf {ws : List Word} {s s' r r' : Text} (h : WordsAt ws s' r')
    (hs : s' = s ++ x) (hr : r' = r ++ x) :
    ∃ ws' : List Word, ws'.length = ws.length ∧ WordsAt ws' s r := by
  subst hr
  cases h with
  | nil =>
    obtain rfl := List.append_cancel_right hs
    exact ⟨[], rfl, .nil⟩
  | last h =>
    obtain ⟨w, hw⟩ := h.of_inFrontOf hs rfl
    exact ⟨[w], rfl, .last hw⟩
  | cons h hne hg k =>
    rename_i g u' w v ws
    obtain ⟨u, rfl⟩ := exists_eq_append_of_suffix k.starts.1
    obtain ⟨w, hw⟩ := h.of_inFrontOf hs (List.append_assoc g u x).symm
    obtain ⟨_ | ⟨v, ws⟩, hlen, hws⟩ := k.of_inFrontOf rfl rfl
    · cases hlen
    · exact ⟨w :: v :: ws, congrArg Nat.succ hlen, .cons hw hne hg hws⟩

end

/-! ## Lines -/

theorem PieceAt.inFrontOf {p : Part} {s r : Text} (h : PieceAt p s r) (hr : r ≠ [] ∨ FollowsLine x) :
    PieceAt (p.inFrontOf x) (s ++ x) (r ++ x) := by
  cases h with
  | literal h hne => exact .literal (h.inFrontOf (hr.imp_right fun hx => hx.head?_eq_false rfl)) hne
  | expansion h => exact .expansion (h.inFrontOf hr)

theorem PiecesAt.inFrontOf {ps : List Part} {s r : Text} (h : PiecesAt ps s r)
    (hr : r ≠ [] ∨ FollowsLine x) : PiecesAt (partsInFrontOf x ps) (s ++ x) (r ++ x) := by
  induction h with
  | nil => exact .nil
  | cons h k ih => exact .cons (h.inFrontOf (hr.imp_left (ne_nil_of_suffix k.starts.1))) (ih hr)

theorem PieceAt.of_inFrontOf {p : Part} {s r : Text} (h : PieceAt p (s ++ x) (r ++ x)) :
    ∃ p', PieceAt p' s r := by
  generalize hs : s ++ x = s' at h
  cases h with
  | literal h hne =>
    subst hs
    exact ⟨_, .literal h.of_inFrontOf hne⟩
  | expansion h =>
    obtain ⟨e, he⟩ := h.of_inFrontOf hs.symm rfl
    exact ⟨_, .expansion he⟩

theorem PiecesAt.of_inFrontOf {ps : List Part} {s s' r : Text} (h : PiecesAt ps s' (r ++ x))
    (hs : s' = s ++ x) : ∃ ps', PiecesAt ps' s r := by
  generalize hr : r ++ x = r' at h
  induction h generalizing s with
  | nil =>
    obtain rfl := List.append_cancel_right (hr.trans hs)
    exact ⟨[], .nil⟩
  | cons h k ih =>
    subst hr hs
    obtain ⟨u, rfl⟩ := exists_eq_append_of_suffix k.starts.1
    obtain ⟨p, hp⟩ := h.of_inFrontOf
    obtain ⟨ps, hps⟩ := ih rfl rfl
    exact ⟨p :: ps, .cons hp hps⟩

end TextTemplate

import Mathlib.Data.List.ReduceOption
import TextTemplate.Proofs.Bindings.Definitions

/-!
# The lines of bindings

Bindings are read as one stream of characters, but they are a matter of lines: each line is a gap or binds one
name, whatever the other lines are, and only the last one has to end with a comment.

Main results:
* `reads_line`, `reads_last`: reading goes line by line.
* `parse_by_lines`: which texts are bindings, and of what.
-/

namespace TextTemplate.Bindings

/-! ## Specification -/

/-- A gap: spaces only, or spaces and then a comment. -/
def GapLine (l : Text) : Prop :=
  ∃ g t, l = g ++ t ∧ (∀ c ∈ g, c = ' ') ∧ (t = [] ∨ ['-', '-'] <+: t)

/-- The line binds a name to a value behind its first spaces, and ends there or with a dollar sign and a
    comment, which is `e`. -/
def BindingLine (name value l e : Text) : Prop :=
  ∃ g s, l = g ++ s ∧ (∀ c ∈ g, c = ' ') ∧ BindsAt name value s e ∧
    (e = [] ∨ ['$', '-', '-'] <+: e)

/-- A line is a gap, or it is not and binds a name to a value. -/
inductive LineMeans : Text → Option (Text × Text) → Prop
  | gap {l : Text} : GapLine l → LineMeans l none
  | binding {name value l e : Text} : ¬ GapLine l → BindingLine name value l e →
      LineMeans l (some (name, value))

/-- The last line is a gap or ends with a comment, as nothing else ends it. -/
def ClosesText (l : Text) : Prop :=
  GapLine l ∨ ∃ name value e, BindingLine name value l e ∧ ['$', '-', '-'] <+: e

/-- What the lines of a text mean, one by one. -/
structure LinesMean (text : Text) (ds : List (Option (Text × Text))) : Prop where
  /-- Each line has its meaning. -/
  lines : List.Forall₂ LineMeans (text.splitOn '\n') ds
  /-- The last line is closed. -/
  closed : ∀ l ∈ (text.splitOn '\n').getLast?, ClosesText l

/-! ## Gaps -/

theorem skipGaps_of_comment {s u : Text} (h : comment? (s.dropWhile isGap) = some u) :
    skipGaps s = skipGaps u := by
  rw [skipGaps]
  split
  · rename_i v hv
    rw [h] at hv
    cases hv
    rfl
  · rename_i hv; rw [h] at hv; cases hv

theorem skipGaps_of_not_comment {s : Text} (h : comment? (s.dropWhile isGap) = none) :
    skipGaps s = s.dropWhile isGap := by
  rw [skipGaps]
  split
  · rename_i v hv; rw [h] at hv; cases hv
  · rfl

theorem skipGaps_congr {s s' : Text} (h : s.dropWhile isGap = s'.dropWhile isGap) :
    skipGaps s = skipGaps s' := by
  have hs : comment? (s.dropWhile isGap) = comment? (s'.dropWhile isGap) := by rw [h]
  cases hc : comment? (s'.dropWhile isGap) with
  | some u => rw [skipGaps_of_comment (hs.trans hc), skipGaps_of_comment hc]
  | none => rw [skipGaps_of_not_comment (hs.trans hc), skipGaps_of_not_comment hc, h]

theorem skipGaps_newline (s : Text) : skipGaps ('\n' :: s) = skipGaps s := skipGaps_congr rfl

/-- Gaps go on behind spaces. -/
theorem dropWhile_isGap_append {g : Text} (hg : ∀ c ∈ g, c = ' ') (s : Text) :
    (g ++ s).dropWhile isGap = s.dropWhile isGap :=
  List.dropWhile_append_of_pos fun c hc => by rw [hg c hc]; rfl

/-- A gap is skipped. -/
theorem skipGaps_gapLine {l : Text} (hgap : GapLine l) (hl : '\n' ∉ l) {r : Text}
    (hr : FollowsLine r) : skipGaps (l ++ r) = skipGaps r := by
  obtain ⟨g, t, rfl, hg, rfl | hdashes⟩ := hgap
  · rw [List.append_nil]
    exact skipGaps_congr (dropWhile_isGap_append hg r)
  · have ht : '\n' ∉ t := fun h => hl (List.mem_append_right _ h)
    have hcomment : comment? (t ++ r) = some r :=
      (comment?_append_eq_some_iff ht hr).2 ⟨hdashes, rfl⟩
    refine skipGaps_of_comment ?_
    rw [List.append_assoc, dropWhile_isGap_append hg]
    obtain ⟨v, rfl⟩ := hdashes
    exact hcomment

/-- In a line that is no gap, only its first spaces are skipped. -/
theorem skipGaps_of_not_gapLine {l : Text} (hgap : ¬ GapLine l) (hl : '\n' ∉ l) {r : Text}
    (hr : FollowsLine r) :
    skipGaps (l ++ r) = l.dropWhile isSpace ++ r ∧ l.dropWhile isSpace ≠ [] := by
  have hrun := isRun_takeWhile isSpace l
  have hspaces : ∀ c ∈ l.takeWhile isSpace, c = ' ' := by
    intro c hc
    simpa [isSpace] using hrun.all c hc
  generalize l.takeWhile isSpace = g, l.dropWhile isSpace = t at hrun hspaces
  obtain rfl := hrun.split
  have ht : '\n' ∉ t := fun h => hl (List.mem_append_right _ h)
  have hne : t ≠ [] := fun h => hgap ⟨g, t, rfl, hspaces, .inl h⟩
  refine ⟨?_, hne⟩
  have hdrop : (g ++ t ++ r).dropWhile isGap = t ++ r := by
    rw [List.append_assoc, dropWhile_isGap_append hspaces]
    obtain ⟨c, t, rfl⟩ := List.exists_cons_of_ne_nil hne
    have hspace : isSpace c = false := hrun.stop c rfl
    have hnewline : c ≠ '\n' := fun h => ht (h ▸ List.mem_cons_self)
    have hc : isGap c = false := by simp_all [isGap, isSpace]
    rw [List.cons_append, List.dropWhile_cons, hc]
    rfl
  rw [skipGaps_of_not_comment, hdrop]
  rw [hdrop, Option.eq_none_iff_forall_ne_some]
  intro u hu
  exact hgap ⟨g, t, rfl, hspaces, .inr ((comment?_append_eq_some_iff ht hr).1 hu).1⟩

/-! ## Reading line by line -/

theorem definitions_of_skipGaps_nil {s : Text} (h : skipGaps s = []) :
    definitions s = ([], none) := by
  rw [definitions]
  split
  · rfl
  · rename_i hs; rw [h] at hs; cases hs

theorem definitions_of_skipGaps {s s' : Text} (h : skipGaps s = s') (hne : s' ≠ []) :
    definitions s =
      match readDefinition s' with
      | .error f => ([], some f)
      | .ok (d, u) => (definitions u).map (d :: ·) id := by
  rw [definitions]
  split
  · rename_i hs; rw [h] at hs; exact absurd hs hne
  · rename_i c r hs
    rw [h] at hs
    subst hs
    split <;> rename_i hread <;> rw [hread]

theorem definitions_congr {s s' : Text} (h : skipGaps s = skipGaps s') :
    definitions s = definitions s' := by
  cases hs : skipGaps s' with
  | nil => rw [definitions_of_skipGaps_nil (h.trans hs), definitions_of_skipGaps_nil hs]
  | cons c r =>
    rw [definitions_of_skipGaps (h.trans hs) (List.cons_ne_nil c r),
      definitions_of_skipGaps hs (List.cons_ne_nil c r)]

/-- Reading the text finds definitions of these names and values, and no fault. -/
def Reads (s : Text) (ps : List (Text × Text)) : Prop :=
  ∃ ds, definitions s = (ds, none) ∧ ds.map (fun d => (d.name, d.value)) = ps

theorem reads_of_skipGaps_nil {s : Text} (h : skipGaps s = []) {ps : List (Text × Text)} :
    Reads s ps ↔ ps = [] := by
  have hs := definitions_of_skipGaps_nil h
  constructor
  · rintro ⟨ds, hds, rfl⟩
    rw [hs] at hds
    cases hds
    rfl
  · rintro rfl; exact ⟨[], hs, rfl⟩

theorem reads_of_skipGaps {s s' : Text} (h : skipGaps s = s') (hne : s' ≠ [])
    {ps : List (Text × Text)} :
    Reads s ps ↔ ∃ d u ps', readDefinition s' = .ok (d, u) ∧ Reads u ps' ∧
      ps = (d.name, d.value) :: ps' := by
  rw [Reads, definitions_of_skipGaps h hne]
  constructor
  · rintro ⟨ds, hds, rfl⟩
    split at hds
    · cases hds
    · rename_i d u hread
      cases hds' : definitions u with
      | mk ds' fault =>
        rw [hds'] at hds
        cases hds
        exact ⟨d, u, _, hread, ⟨ds', hds', rfl⟩, rfl⟩
  · rintro ⟨d, u, ps', hread, ⟨ds, hds, rfl⟩, rfl⟩
    rw [hread]
    simp only [hds]
    exact ⟨_, rfl, rfl⟩

theorem reads_congr {s s' : Text} (h : skipGaps s = skipGaps s') {ps : List (Text × Text)} :
    Reads s ps ↔ Reads s' ps := by
  rw [Reads, Reads, definitions_congr h]

theorem bindingLine_iff {name value l e : Text} :
    BindingLine name value l e ↔
      BindsAt name value (l.dropWhile isSpace) e ∧ (e = [] ∨ ['$', '-', '-'] <+: e) := by
  constructor
  · rintro ⟨g, s, rfl, hg, hbinds, hend⟩
    have hrun : IsRun isSpace (g ++ s) g s :=
      ⟨rfl, fun c hc => by rw [hg c hc]; rfl, hbinds.head⟩
    rw [hrun.dropWhile_eq]
    exact ⟨hbinds, hend⟩
  · rintro ⟨hbinds, hend⟩
    have hrun := isRun_takeWhile isSpace l
    exact ⟨_, _, hrun.split, fun c hc => by simpa [isSpace] using hrun.all c hc, hbinds, hend⟩

/-- A line that is no gap starts with a definition, which ends with the line or behind a comment. -/
theorem reads_of_not_gapLine {l : Text} (hgap : ¬ GapLine l) (hl : '\n' ∉ l) {r : Text}
    (hr : FollowsLine r) {ps : List (Text × Text)} :
    Reads (l ++ r) ps ↔ ∃ name value e ps', BindingLine name value l e ∧
      (r = [] → ['$', '-', '-'] <+: e) ∧ Reads r ps' ∧ ps = (name, value) :: ps' := by
  obtain ⟨hskip, hne⟩ := skipGaps_of_not_gapLine hgap hl hr
  have hs : '\n' ∉ l.dropWhile isSpace := fun h => hl ((List.dropWhile_suffix _).subset h)
  rw [reads_of_skipGaps hskip (List.append_ne_nil_of_left_ne_nil hne r)]
  constructor
  · rintro ⟨d, u, ps', hread, hrest, rfl⟩
    obtain ⟨-, e', hbinds', hend⟩ := readDefinition_eq_ok_iff.1 hread
    obtain ⟨e, hbinds, rfl⟩ := (bindsAt_append_iff hs hr).1 hbinds'
    have he : '\n' ∉ e := fun h => hs (hbinds.suffix.subset h)
    rcases (readEnd_append_iff he hr).1 hend with ⟨rfl, rfl⟩ | ⟨hdollar, rfl⟩
    · refine ⟨_, _, [], ps', bindingLine_iff.2 ⟨hbinds, .inl rfl⟩, ?_, ?_, rfl⟩
      · intro h; cases h
      · exact (reads_congr (skipGaps_newline u)).2 hrest
    · exact ⟨_, _, e, ps', bindingLine_iff.2 ⟨hbinds, .inr hdollar⟩, fun _ => hdollar, hrest, rfl⟩
  · rintro ⟨name, value, e, ps', hline, hclosed, hrest, rfl⟩
    obtain ⟨hbinds, hend⟩ := bindingLine_iff.1 hline
    have he : '\n' ∉ e := fun h => hs (hbinds.suffix.subset h)
    have hbinds' := (bindsAt_append_iff hs hr).2 ⟨e, hbinds, rfl⟩
    have hread : ∀ u, readEnd (e ++ r) = .ok u →
        readDefinition (l.dropWhile isSpace ++ r) = .ok (⟨_, name, value⟩, u) :=
      fun u hu => readDefinition_eq_ok_iff.2 ⟨rfl, e ++ r, hbinds', hu⟩
    rcases hend with rfl | hdollar
    · cases hr with
      | nil => simp at hclosed
      | newline s =>
        refine ⟨_, s, ps', hread s rfl, ?_, rfl⟩
        exact (reads_congr (skipGaps_newline s)).1 hrest
    · exact ⟨_, r, ps', hread r ((readEnd_append_iff he hr).2 (.inr ⟨hdollar, rfl⟩)), hrest, rfl⟩

theorem BindingLine.unique {name value name' value' l e e' : Text}
    (h : BindingLine name value l e) (h' : BindingLine name' value' l e') :
    name = name' ∧ value = value' ∧ e = e' :=
  (bindingLine_iff.1 h).1.unique (bindingLine_iff.1 h').1

theorem reads_nil {ps : List (Text × Text)} : Reads [] ps ↔ ps = [] :=
  reads_of_skipGaps_nil (skipGaps_of_not_comment rfl)

/-- A line and its newline are read as what the line means, and then the rest is. -/
theorem reads_line {l : Text} (hl : '\n' ∉ l) {s : Text} {ps : List (Text × Text)} :
    Reads (l ++ '\n' :: s) ps ↔ ∃ d ps', LineMeans l d ∧ Reads s ps' ∧ ps = d.toList ++ ps' := by
  have hrest : ∀ ps, Reads ('\n' :: s) ps ↔ Reads s ps := fun ps => reads_congr (skipGaps_newline s)
  by_cases hgap : GapLine l
  · rw [reads_congr (skipGaps_gapLine hgap hl (.newline s)), hrest]
    constructor
    · intro h; exact ⟨none, ps, .gap hgap, h, rfl⟩
    · rintro ⟨d, ps', hmeans, h, rfl⟩
      cases hmeans with
      | gap => exact h
      | binding hno => exact absurd hgap hno
  · rw [reads_of_not_gapLine hgap hl (.newline s)]
    constructor
    · rintro ⟨name, value, e, ps', hline, -, h, rfl⟩
      exact ⟨some (name, value), ps', .binding hgap hline, (hrest ps').1 h, rfl⟩
    · rintro ⟨d, ps', hmeans, h, rfl⟩
      cases hmeans with
      | gap hyes => exact absurd hyes hgap
      | binding _ hline => exact ⟨_, _, _, ps', hline, by simp, (hrest ps').2 h, rfl⟩

/-- The last line is read as what it means, if it is closed. -/
theorem reads_last {l : Text} (hl : '\n' ∉ l) {ps : List (Text × Text)} :
    Reads l ps ↔ ∃ d, LineMeans l d ∧ ClosesText l ∧ ps = d.toList := by
  by_cases hgap : GapLine l
  · have hskip := skipGaps_gapLine hgap hl .nil
    rw [List.append_nil] at hskip
    rw [reads_congr hskip, reads_nil]
    constructor
    · rintro rfl; exact ⟨none, .gap hgap, .inl hgap, rfl⟩
    · rintro ⟨d, hmeans, -, rfl⟩
      cases hmeans with
      | gap => rfl
      | binding hno => exact absurd hgap hno
  · have hreads : Reads (l ++ []) ps ↔ _ := reads_of_not_gapLine hgap hl .nil
    rw [List.append_nil] at hreads
    rw [hreads]
    constructor
    · rintro ⟨name, value, e, ps', hline, hdollar, h, rfl⟩
      obtain rfl := reads_nil.1 h
      exact ⟨_, .binding hgap hline, .inr ⟨name, value, e, hline, hdollar rfl⟩, rfl⟩
    · rintro ⟨d, hmeans, hclosed, rfl⟩
      cases hmeans with
      | gap hyes => exact absurd hyes hgap
      | binding _ hline =>
        obtain ⟨name, value, e, hline', hdollar⟩ := hclosed.resolve_left hgap
        obtain ⟨rfl, rfl, rfl⟩ := hline.unique hline'
        exact ⟨_, _, _, [], hline, fun _ => hdollar, reads_nil.2 rfl, rfl⟩

/-! ## Whole texts -/

theorem linesMean_unlines {ls : List Text} (hls : ∀ l ∈ ls, '\n' ∉ l) {last : Text}
    (hlast : '\n' ∉ last) {ds : List (Option (Text × Text))} :
    LinesMean (unlines ls ++ last) ds ↔
      List.Forall₂ LineMeans (ls ++ [last]) ds ∧ ClosesText last := by
  have hsplit : (unlines ls ++ last).splitOn '\n' = ls ++ [last] := by
    rw [splitOn_unlines hls, List.splitOn_eq_singleton hlast]
  constructor
  · rintro ⟨hlines, hclosed⟩
    rw [hsplit] at hlines hclosed
    exact ⟨hlines, hclosed last (by simp)⟩
  · rintro ⟨hlines, hclosed⟩
    refine ⟨hsplit ▸ hlines, ?_⟩
    rw [hsplit, List.getLast?_concat]
    intro l hl
    cases hl
    exact hclosed

theorem reduceOption_cons (d : Option (Text × Text)) (ds : List (Option (Text × Text))) :
    (d :: ds).reduceOption = d.toList ++ ds.reduceOption := by
  cases d <;> rfl

/-- Reading a text is reading its lines. -/
theorem reads_iff (s : Text) (ps : List (Text × Text)) :
    Reads s ps ↔ ∃ ds, LinesMean s ds ∧ ps = ds.reduceOption := by
  obtain ⟨ls, last, rfl, hls, hlast⟩ := exists_lines s
  simp only [linesMean_unlines hls hlast]
  induction ls generalizing ps with
  | nil =>
    show Reads last ps ↔ _
    rw [reads_last hlast]
    constructor
    · rintro ⟨d, hmeans, hclosed, rfl⟩
      exact ⟨[d], ⟨.cons hmeans .nil, hclosed⟩, (List.reduceOption_singleton d).symm⟩
    · rintro ⟨ds, ⟨hlines, hclosed⟩, rfl⟩
      cases hlines with
      | cons hmeans hnil =>
        cases hnil
        exact ⟨_, hmeans, hclosed, List.reduceOption_singleton _⟩
  | cons l ls ih =>
    rw [List.forall_mem_cons] at hls
    rw [unlines_cons, reads_line hls.1]
    constructor
    · rintro ⟨d, ps', hmeans, hrest, rfl⟩
      obtain ⟨ds, ⟨hlines, hclosed⟩, rfl⟩ := (ih ps' hls.2).1 hrest
      exact ⟨d :: ds, ⟨.cons hmeans hlines, hclosed⟩, (reduceOption_cons d ds).symm⟩
    · rintro ⟨ds, ⟨hlines, hclosed⟩, rfl⟩
      cases hlines with
      | cons hmeans hlines =>
        exact ⟨_, _, hmeans, (ih _ hls.2).2 ⟨_, ⟨hlines, hclosed⟩, rfl⟩, reduceOption_cons _ _⟩

theorem parse_eq_ok_iff {source s : Text} {m : Bindings} :
    parse source s = .ok m ↔ ∃ ds, definitions s = (ds, none) ∧ defineAll empty ds = .ok m := by
  unfold parse read
  cases hs : definitions s with
  | mk ds fault =>
    cases hds : defineAll empty ds with
    | error d => simp [hds, Except.mapError]
    | ok b => cases fault <;> simp [hds, Except.mapError]

/-- Which texts are bindings, and what of: each line is a gap or binds a name, the last line is closed, and no
    name is bound twice; then the names are bound, each to itself, a space and its value, and no others. -/
theorem parse_by_lines (source text : Text) :
    ((∃ m, parse source text = .ok m) ↔
      ∃ ds, LinesMean text ds ∧ (ds.reduceOption.map Prod.fst).Nodup) ∧
    ∀ m ds, parse source text = .ok m → LinesMean text ds →
      ∀ n e, m.get? n = some e ↔ ∃ v, some (n, v) ∈ ds ∧ e = n ++ ' ' :: v := by
  constructor
  · constructor
    · rintro ⟨m, hm⟩
      obtain ⟨defs, hdefs, hbind⟩ := parse_eq_ok_iff.1 hm
      obtain ⟨ds, hmeans, hds⟩ := (reads_iff text _).1 ⟨defs, hdefs, rfl⟩
      refine ⟨ds, hmeans, ?_⟩
      rw [← hds, List.map_map]
      exact ((exists_defineAll_iff defs empty).1 ⟨m, hbind⟩).1
    · rintro ⟨ds, hmeans, hnodup⟩
      obtain ⟨defs, hdefs, hds⟩ := (reads_iff text _).2 ⟨ds, hmeans, rfl⟩
      rw [← hds, List.map_map] at hnodup
      obtain ⟨m, hm⟩ := (exists_defineAll_iff defs empty).2 ⟨hnodup, fun _ _ => rfl⟩
      exact ⟨m, parse_eq_ok_iff.2 ⟨defs, hdefs, hm⟩⟩
  · intro m ds hm hmeans n e
    obtain ⟨defs, hdefs, hbind⟩ := parse_eq_ok_iff.1 hm
    obtain ⟨defs', hdefs', hds⟩ := (reads_iff text _).2 ⟨ds, hmeans, rfl⟩
    rw [hdefs] at hdefs'
    cases hdefs'
    have hmem : ∀ v, some (n, v) ∈ ds ↔ ∃ d ∈ defs, d.name = n ∧ d.value = v := by
      intro v
      rw [← List.reduceOption_mem_iff, ← hds, List.mem_map]
      simp only [Prod.mk.injEq]
    rw [get?_defineAll hbind, get?_empty]
    constructor
    · rintro (h | ⟨d, hd, hname, rfl⟩)
      · cases h
      · exact ⟨d.value, (hmem d.value).2 ⟨d, hd, hname, rfl⟩, rfl⟩
    · rintro ⟨v, hv, rfl⟩
      obtain ⟨d, hd, hname, rfl⟩ := (hmem v).1 hv
      exact .inr ⟨d, hd, hname, rfl⟩

example : (parse [] " x y  z  \n--w\n".toList).toOption.map entries =
    some [("x".toList, "x y  z".toList)] := by decide +kernel

end TextTemplate.Bindings

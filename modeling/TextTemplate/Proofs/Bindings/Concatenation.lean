import Mathlib.Data.List.Forall2
import Mathlib.Data.List.Induction
import Mathlib.Data.List.Perm.Basic
import TextTemplate.Proofs.Bindings.Lines
import TextTemplate.Proofs.Position

/-!
# Bindings put together

Nothing in bindings reaches across a newline. So what is read in a text stays the same whatever lines stand in
front of it and whatever text follows its last newline, and two texts of bindings only meet in the names that
both of them define.

Main results:
* `readDefinition_append`, `definitions_append`: what is read in lines does not depend on what follows them.
* `read_append`: the bindings of the first text are where the second goes on from.
* `readInto_of_disjoint`, `readInto_of_clash`, `readInto_of_error`: how reading goes on from bindings.
* `parse_concatenated`: the bindings and the errors of two texts put together.
-/

namespace TextTemplate.Bindings

/-! ## Specification -/

/-- The text has the complete definition `d`, `before` being the complete ones in front of it, and up to there no
    error: they come before its fault, and no two of them define one name. -/
structure Completes (s : Text) (before : List Definition) (d : Definition) : Prop where
  /-- They are read, in this order and first. -/
  read : before ++ [d] <+: (definitions s).1
  /-- Their names differ. -/
  nodup : ((before ++ [d]).map Definition.name).Nodup

/-- Read definitions on top of bindings. -/
def readInto (b : Bindings) (s : Text) : Except Defect Bindings :=
  match defineAll b (definitions s).1, (definitions s).2 with
  | .error d, _ => .error d
  | .ok _, some f => .error f.defect
  | .ok m, none => .ok m

/-- A definition seen with `r` behind the text that it starts. -/
def Definition.inFrontOf (r : Text) (d : Definition) : Definition := { d with start := d.start ++ r }

/-! ## Places -/

theorem suffix_of_comment? {s r : Text} (h : comment? s = some r) : r <:+ s := by
  unfold comment? at h
  split at h
  · cases h
    exact suffix_cons_of _ (suffix_cons_of _ (List.dropWhile_suffix _))
  · cases h

theorem fault_of_readSegments {p : Char → Bool} {s : Text} {f : Fault}
    (h : readSegments p s = .error f) : f.rest <:+ s := by
  fun_induction readSegments p s with
  | case1 => cases h
  | case2 c s hc f' hf => cases h; exact suffix_cons_of _ (Quoted.fault_of_read hf).1
  | case3 c s hc t u hu ih =>
    obtain ⟨w, -, rfl⟩ := Quoted.writes_of_read hu
    have hrest := ih (error_of_map_eq_error h)
    exact suffix_cons_of _ (hrest.trans ((List.suffix_cons _ _).trans (List.suffix_append _ _)))
  | case4 c s hq hc ih =>
    exact suffix_cons_of _ ((ih (error_of_map_eq_error h)).trans (List.dropWhile_suffix _))
  | case5 => cases h

theorem fault_of_readEnd {s : Text} {f : Fault} (h : readEnd s = .error f) : f.rest <:+ s := by
  unfold readEnd at h
  split at h
  · cases h
  · split at h
    · cases h
    · cases h; exact List.suffix_cons _ _
  · cases h; exact List.suffix_rfl

theorem suffix_of_readEnd {s u : Text} (h : readEnd s = .ok u) : u <:+ s := by
  unfold readEnd at h
  split at h
  · cases h; exact List.suffix_cons _ _
  · split at h
    · rename_i hcomment; cases h; exact suffix_cons_of _ (suffix_of_comment? hcomment)
    · cases h
  · cases h

theorem suffix_of_readDefinition {s u : Text} {d : Definition} (h : readDefinition s = .ok (d, u)) :
    u <:+ s := by
  obtain ⟨-, e, hbinds, hend⟩ := readDefinition_eq_ok_iff.1 h
  exact (suffix_of_readEnd hend).trans hbinds.suffix

theorem fault_of_readDefinition {s : Text} {f : Fault} (h : readDefinition s = .error f) :
    f.rest <:+ s := by
  unfold readDefinition at h
  split at h
  · rename_i hname; cases h; exact fault_of_readSegments hname
  · cases h; exact List.suffix_rfl
  · rename_i names t _ hname
    have ht : t.dropWhile isSpace <:+ s :=
      (List.dropWhile_suffix _).trans (segmentsAt_of_read hname).suffix
    split at h
    · rename_i hvalue; cases h; exact (fault_of_readSegments hvalue).trans ht
    · cases h; exact ht
    · rename_i values u _ hvalue
      have hu : u.dropWhile isSpace <:+ s :=
        (List.dropWhile_suffix _).trans ((segmentsAt_of_read hvalue).suffix.trans ht)
      exact (fault_of_readEnd (error_of_map_eq_error h)).trans hu

theorem skipGaps_suffix (s : Text) : skipGaps s <:+ s := by
  fun_induction skipGaps s with
  | case1 s r h ih => exact (ih.trans (suffix_of_comment? h)).trans (List.dropWhile_suffix _)
  | case2 s h => exact List.dropWhile_suffix _

/-- Definitions and faults lie in the text, and a definition stands where it starts. -/
theorem definitions_places (s : Text) :
    (∀ d ∈ (definitions s).1, d.start <:+ s ∧
      ∃ e u, BindsAt d.name d.value d.start e ∧ readEnd e = .ok u) ∧
    ∀ f ∈ (definitions s).2, f.rest <:+ s := by
  fun_induction definitions s with
  | case1 => simp
  | case2 s c r hskip f hread =>
    refine ⟨by simp, ?_⟩
    rintro f' hf'
    cases hf'
    exact (fault_of_readDefinition hread).trans (hskip ▸ skipGaps_suffix s)
  | case3 s c r hskip d u hread ih =>
    have hs : c :: r <:+ s := hskip ▸ skipGaps_suffix s
    have hu : u <:+ s := (suffix_of_readDefinition hread).trans hs
    obtain ⟨hstart, e, hbinds, hend⟩ := readDefinition_eq_ok_iff.1 hread
    refine ⟨?_, fun f hf => (ih.2 f hf).trans hu⟩
    intro d' hd'
    rcases List.mem_cons.1 hd' with rfl | hd'
    · rw [hstart]
      exact ⟨hs, e, u, hbinds, hend⟩
    · exact ⟨(ih.1 d' hd').1.trans hu, (ih.1 d' hd').2⟩

/-! ## Reading in front of more text -/

theorem comment?_append {t : Text} (ht : '\n' ∉ t) {r : Text} (hr : FollowsLine r) :
    comment? (t ++ r) = if ['-', '-'] <+: t then some r else none := by
  split_ifs with h
  · exact (comment?_append_eq_some_iff ht hr).2 ⟨h, rfl⟩
  · rw [Option.eq_none_iff_forall_ne_some]
    intro u hu
    exact h ((comment?_append_eq_some_iff ht hr).1 hu).1

theorem readEnd_append {e : Text} (he : '\n' ∉ e) (s : Text) :
    readEnd (e ++ '\n' :: s) =
      match readEnd (e ++ ['\n']) with
      | .error f => .error (f.inFrontOf s)
      | .ok u => .ok (u ++ s) := by
  cases e with
  | nil => rfl
  | cons c e =>
    have he' : '\n' ∉ e := fun h => he (List.mem_cons_of_mem _ h)
    have hc : c ≠ '\n' := fun h => he (h ▸ List.mem_cons_self)
    by_cases hd : c = '$'
    · subst hd
      rw [List.cons_append, List.cons_append, readEnd, readEnd, comment?_append he' (.newline s),
        comment?_append he' (.newline [])]
      split_ifs
      · rfl
      · simp [Fault.inFrontOf]
    · simp [readEnd, hc, hd, Fault.inFrontOf]

/-- A definition in a line is read in the same way whatever follows the line's newline. -/
theorem readDefinition_append {l : Text} (hl : '\n' ∉ l) (s : Text) :
    readDefinition (l ++ '\n' :: s) =
      match readDefinition (l ++ ['\n']) with
      | .error f => .error (f.inFrontOf s)
      | .ok (d, u) => .ok (d.inFrontOf s, u ++ s) := by
  have hspace : isSpace '\n' = false := by decide
  unfold readDefinition
  rw [readSegments_append (by decide) hl (.newline s),
    readSegments_append (by decide) hl (.newline [])]
  cases hname : readSegments isBarewordChar l with
  | error f => simp [inFrontOf, Fault.inFrontOf]
  | ok x =>
    obtain ⟨names, t⟩ := x
    cases names with
    | nil => simp [inFrontOf, Fault.inFrontOf]
    | cons name names =>
      have ht : '\n' ∉ t.dropWhile isSpace := fun h =>
        hl ((segmentsAt_of_read hname).suffix.subset ((List.dropWhile_suffix _).subset h))
      simp only [inFrontOf]
      rw [dropWhile_append hspace (.newline s), dropWhile_append hspace (.newline []),
        readSegments_append (by decide) ht (.newline s),
        readSegments_append (by decide) ht (.newline [])]
      cases hvalue : readSegments isValueChar (t.dropWhile isSpace) with
      | error f => simp [inFrontOf, Fault.inFrontOf]
      | ok x =>
        obtain ⟨values, u⟩ := x
        cases values with
        | nil => simp [inFrontOf, Fault.inFrontOf]
        | cons value values =>
          have hu : '\n' ∉ u.dropWhile isSpace := fun h =>
            ht ((segmentsAt_of_read hvalue).suffix.subset ((List.dropWhile_suffix _).subset h))
          simp only [inFrontOf]
          rw [dropWhile_append hspace (.newline s), dropWhile_append hspace (.newline []),
            readEnd_append hu]
          cases readEnd (u.dropWhile isSpace ++ ['\n']) with
          | error f => rfl
          | ok v => simp [Except.map, Definition.inFrontOf]

/-- What follows a definition in a line is nothing but its newline, if that. -/
theorem skipGaps_behind {l : Text} (hl : '\n' ∉ l) {d : Definition} {u : Text}
    (h : readDefinition (l ++ ['\n']) = .ok (d, u)) (s : Text) : skipGaps (u ++ s) = skipGaps s := by
  obtain ⟨-, e', hbinds, hend⟩ := readDefinition_eq_ok_iff.1 h
  obtain ⟨e, he, rfl⟩ := (bindsAt_append_iff hl (.newline [])).1 hbinds
  have hn : '\n' ∉ e := fun h => hl (he.suffix.subset h)
  rcases (readEnd_append_iff hn (.newline [])).1 hend with ⟨-, hu⟩ | ⟨-, rfl⟩
  · cases hu; rfl
  · exact skipGaps_newline s

theorem definitions_nil : definitions [] = ([], none) :=
  definitions_of_skipGaps_nil (skipGaps_of_not_comment rfl)

theorem definitions_line {l : Text} (hl : '\n' ∉ l) (s : Text) :
    definitions (l ++ '\n' :: s) =
      match definitions (l ++ ['\n']) with
      | (ds, some f) => (ds.map (.inFrontOf s), some (f.inFrontOf s))
      | (ds, none) => (ds.map (.inFrontOf s) ++ (definitions s).1, (definitions s).2) := by
  by_cases hgap : GapLine l
  · have hskip : ∀ r, skipGaps (l ++ '\n' :: r) = skipGaps r := fun r =>
      (skipGaps_gapLine hgap hl (.newline r)).trans (skipGaps_newline r)
    rw [definitions_congr (hskip s), definitions_congr (hskip []), definitions_nil]
    rfl
  · obtain ⟨hskip, hne⟩ := skipGaps_of_not_gapLine hgap hl (.newline s)
    obtain ⟨hskip', -⟩ := skipGaps_of_not_gapLine hgap hl (.newline [])
    have hs : '\n' ∉ l.dropWhile isSpace := fun h => hl ((List.dropWhile_suffix _).subset h)
    rw [definitions_of_skipGaps hskip (List.append_ne_nil_of_left_ne_nil hne _),
      definitions_of_skipGaps hskip' (List.append_ne_nil_of_left_ne_nil hne _),
      readDefinition_append hs]
    cases hread : readDefinition (l.dropWhile isSpace ++ ['\n']) with
    | error f => rfl
    | ok x =>
      obtain ⟨d, u⟩ := x
      have hu : definitions u = ([], none) := by
        have := skipGaps_behind hs hread []
        rw [List.append_nil] at this
        rw [definitions_congr this, definitions_nil]
      simp only
      rw [hu, definitions_congr (skipGaps_behind hs hread s)]
      rfl

/-- What is read in lines is read in front of any text, and then the text is read. -/
theorem definitions_append {t : Text} (ht : ∀ c ∈ t.getLast?, c = '\n') (s : Text) :
    definitions (t ++ s) =
      match definitions t with
      | (ds, some f) => (ds.map (.inFrontOf s), some (f.inFrontOf s))
      | (ds, none) => (ds.map (.inFrontOf s) ++ (definitions s).1, (definitions s).2) := by
  obtain ⟨ls, rfl, hls⟩ := exists_unlines ht
  clear ht
  induction ls with
  | nil =>
    rw [show unlines [] = ([] : Text) from rfl, List.nil_append, definitions_nil]
    rfl
  | cons l ls ih =>
    rw [List.forall_mem_cons] at hls
    have hcons := unlines_cons l ls []
    rw [List.append_nil, List.append_nil] at hcons
    rw [unlines_cons, hcons, definitions_line hls.1 (unlines ls ++ s), definitions_line hls.1 (unlines ls),
      ih hls.2]
    have htwice : Definition.inFrontOf (unlines ls ++ s) =
        Definition.inFrontOf s ∘ Definition.inFrontOf (unlines ls) := by
      funext d
      simp [Definition.inFrontOf]
    match definitions (l ++ ['\n']) with
    | (ds, some f) => simp [htwice, Fault.inFrontOf]
    | (ds, none) =>
      match definitions (unlines ls) with
      | (es, some f) => simp [htwice]
      | (es, none) => simp [htwice]

/-! ## Binding names in two steps -/

theorem defineAll_append (b : Bindings) (ds es : List Definition) :
    defineAll b (ds ++ es) =
      match defineAll b ds with
      | .error d => .error d
      | .ok b' => defineAll b' es := by
  induction ds generalizing b with
  | nil => rfl
  | cons d ds ih =>
    rw [List.cons_append, defineAll, defineAll]
    cases b.define? d.name d.value with
    | none => rfl
    | some b' => exact ih b'

theorem defineAll_inFrontOf (b : Bindings) (ds : List Definition) (s : Text) :
    defineAll b (ds.map (.inFrontOf s)) = (defineAll b ds).mapError (Defect.inFrontOf s) := by
  induction ds generalizing b with
  | nil => rfl
  | cons d ds ih =>
    rw [List.map_cons, defineAll, defineAll, show (d.inFrontOf s).name = d.name from rfl,
      show (d.inFrontOf s).value = d.value from rfl]
    cases b.define? d.name d.value with
    | none => rfl
    | some b' => exact ih b'

/-- Where names can be bound no further: at the first definition of a name that is bound by then. -/
theorem defineAll_eq_error_iff {b : Bindings} {ds : List Definition} {e : Defect} :
    defineAll b ds = .error e ↔ ∃ before d after, ds = before ++ d :: after ∧
      (before.map Definition.name).Nodup ∧ (∀ d' ∈ before, b.get? d'.name = none) ∧
      (d.name ∈ before.map Definition.name ∨ b.get? d.name ≠ none) ∧
      e = ⟨d.start, .redefinition d.name⟩ := by
  have hstep : ∀ {before m} (d : Definition), defineAll b before = .ok m →
      (m.define? d.name d.value = none ↔
        d.name ∈ before.map Definition.name ∨ b.get? d.name ≠ none) := by
    intro before m d hm
    have hbound : m.define? d.name d.value = none ↔ ∃ e, m.get? d.name = some e := by
      rw [define?, contains, ← Option.isSome_iff_exists]
      split_ifs with h <;> simp [h]
    rw [hbound]
    simp only [get?_defineAll hm, exists_or]
    rw [or_comm]
    refine or_congr ?_ Option.ne_none_iff_exists'.symm
    rw [List.mem_map]
    constructor
    · rintro ⟨-, d', hd', hname, -⟩; exact ⟨d', hd', hname⟩
    · rintro ⟨d', hd', hname⟩; exact ⟨_, d', hd', hname, rfl⟩
  constructor
  · intro h
    induction ds using List.reverseRecOn with
    | nil => cases h
    | append_singleton before d ih =>
      rw [defineAll_append] at h
      cases hbefore : defineAll b before with
      | error e' =>
        rw [hbefore] at h
        cases h
        obtain ⟨before', d', after, rfl, hclash⟩ := ih hbefore
        exact ⟨before', d', after ++ [d], by simp, hclash⟩
      | ok m =>
        rw [hbefore] at h
        simp only [defineAll] at h
        split at h
        · rename_i hnone
          cases h
          obtain ⟨hnodup, hfree⟩ := (exists_defineAll_iff before b).1 ⟨m, hbefore⟩
          exact ⟨before, d, [], rfl, hnodup, hfree, (hstep d hbefore).1 hnone, rfl⟩
        · cases h
  · rintro ⟨before, d, after, rfl, hnodup, hfree, hbound, rfl⟩
    obtain ⟨m, hm⟩ := (exists_defineAll_iff before b).2 ⟨hnodup, hfree⟩
    rw [defineAll_append, hm]
    simp only [defineAll, (hstep d hm).2 hbound]

/-! ## Reading on top of bindings -/

theorem read_eq_readInto (s : Text) : read s = readInto empty s := rfl

/-- Reading lines and more text is reading the lines, and then the text on top of what they bind. -/
theorem read_append {t : Text} (ht : ∀ c ∈ t.getLast?, c = '\n') (s : Text) :
    read (t ++ s) =
      match read t with
      | .error d => .error (d.inFrontOf s)
      | .ok b => readInto b s := by
  unfold read readInto
  rw [definitions_append ht]
  match definitions t with
  | (ds, some f) =>
    simp only [defineAll_inFrontOf]
    cases defineAll empty ds <;> rfl
  | (ds, none) =>
    simp only [defineAll_append, defineAll_inFrontOf]
    cases defineAll empty ds <;> rfl

theorem readInto_eq_ok_iff {b m : Bindings} {s : Text} :
    readInto b s = .ok m ↔ (definitions s).2 = none ∧ defineAll b (definitions s).1 = .ok m := by
  unfold readInto
  cases defineAll b (definitions s).1 <;> cases (definitions s).2 <;> simp

theorem defect_suffix_of_readInto {b : Bindings} {s : Text} {e : Defect}
    (h : readInto b s = .error e) : e.rest <:+ s := by
  obtain ⟨hstarts, hfaults⟩ := definitions_places s
  unfold readInto at h
  split at h
  · rename_i hdefine
    cases h
    obtain ⟨before, d, after, hds, -, -, -, rfl⟩ := defineAll_eq_error_iff.1 hdefine
    exact (hstarts d (by rw [hds]; simp)).1
  · rename_i f _ hfault
    cases h
    exact hfaults f (by rw [hfault]; exact rfl)
  · cases h

/-- Definitions of names that are not bound are bound as they would be alone. -/
theorem readInto_of_disjoint {b m : Bindings} {s : Text} (h : read s = .ok m)
    (hb : ∀ n, b.get? n = none ∨ m.get? n = none) :
    ∃ m', readInto b s = .ok m' ∧ ∀ n, m'.get? n = (b.get? n).or (m.get? n) := by
  rw [read_eq_readInto, readInto_eq_ok_iff] at h
  obtain ⟨hfault, hm⟩ := h
  obtain ⟨hnodup, -⟩ := (exists_defineAll_iff _ empty).1 ⟨m, hm⟩
  have hbound : ∀ {n e}, m.get? n = some e ↔
      ∃ d ∈ (definitions s).1, d.name = n ∧ e = n ++ ' ' :: d.value := by
    intro n e
    rw [get?_defineAll hm, get?_empty]
    simp
  have hfree : ∀ d ∈ (definitions s).1, b.get? d.name = none := by
    intro d hd
    refine (hb d.name).resolve_right ?_
    rw [hbound.2 ⟨d, hd, rfl, rfl⟩]
    simp
  obtain ⟨m', hm'⟩ := (exists_defineAll_iff _ b).2 ⟨hnodup, hfree⟩
  refine ⟨m', readInto_eq_ok_iff.2 ⟨hfault, hm'⟩, fun n => Option.ext fun e => ?_⟩
  rw [get?_defineAll hm', ← hbound]
  rcases hb n with hn | hn <;> simp [hn]

/-- The first complete definition of a bound name is refused. -/
theorem readInto_of_clash {b : Bindings} {s : Text} {before : List Definition} {d : Definition}
    (h : Completes s before d) (hd : b.get? d.name ≠ none)
    (hbefore : ∀ d' ∈ before, b.get? d'.name = none) :
    readInto b s = .error ⟨d.start, .redefinition d.name⟩ := by
  obtain ⟨after, hafter⟩ := h.read
  rw [List.append_assoc, List.singleton_append] at hafter
  have hnodup := h.nodup
  rw [List.map_append, List.nodup_append] at hnodup
  have hdefine := defineAll_eq_error_iff.2
    ⟨before, d, after, hafter.symm, hnodup.1, hbefore, .inr hd, rfl⟩
  rw [readInto, hdefine]

/-- If no complete definition is of a bound name, the error is the one that there would be anyway. -/
theorem readInto_of_error {b : Bindings} {s : Text} {e : Defect} (h : read s = .error e)
    (hb : ∀ before d, Completes s before d → b.get? d.name = none) : readInto b s = .error e := by
  have hfree : ∀ ds, ds <+: (definitions s).1 → (ds.map Definition.name).Nodup →
      ∀ d ∈ ds, b.get? d.name = none := by
    intro ds hds hnodup d hd
    obtain ⟨before, after, rfl⟩ := List.append_of_mem hd
    have hcut : before ++ [d] <+: before ++ d :: after := ⟨after, by simp⟩
    refine hb before d ⟨hcut.trans hds, ?_⟩
    exact hnodup.sublist (hcut.sublist.map _)
  rw [read_eq_readInto] at h
  unfold readInto at h ⊢
  cases hds : defineAll empty (definitions s).1 with
  | error e' =>
    rw [hds] at h
    cases h
    obtain ⟨before, d, after, hsplit, hnodup, -, hd, rfl⟩ := defineAll_eq_error_iff.1 hds
    have hd' := hd.resolve_right fun h => h (get?_empty _)
    have hagain := defineAll_eq_error_iff.2 ⟨before, d, after, hsplit, hnodup,
      hfree before ⟨_, hsplit.symm⟩ hnodup, .inl hd', rfl⟩
    rw [hagain]
  | ok m =>
    obtain ⟨hnodup, -⟩ := (exists_defineAll_iff _ empty).1 ⟨m, hds⟩
    obtain ⟨m', hm'⟩ := (exists_defineAll_iff _ b).2 ⟨hnodup, hfree _ List.prefix_rfl hnodup⟩
    rw [hds] at h
    rw [hm']
    cases hfault : (definitions s).2 with
    | none => rw [hfault] at h; cases h
    | some f => rw [hfault] at h; exact h

/-! ## Lines in another order -/

/-- Lines can stand in any order, whatever follows them. -/
theorem parse_perm {ls ls' : List Text} (hls : ∀ l ∈ ls, '\n' ∉ l) (h : ls.Perm ls')
    {source s : Text} {m : Bindings} (hm : parse source (unlines ls ++ s) = .ok m) :
    parse source (unlines ls' ++ s) = .ok m := by
  obtain ⟨lines, last, rfl, hlines, hlast⟩ := exists_lines s
  have hls' : ∀ l ∈ ls', '\n' ∉ l := fun l hl => hls l (h.mem_iff.2 hl)
  obtain ⟨ds, hds, hm⟩ := parse_eq_ok_iff.1 hm
  obtain ⟨means, hmeans, hpairs⟩ := (reads_iff _ _).1 ⟨ds, hds, rfl⟩
  rw [← List.append_assoc, ← unlines_append,
    linesMean_unlines (List.forall_mem_append.2 ⟨hls, hlines⟩) hlast] at hmeans
  have hperm : (ls' ++ lines ++ [last]).Perm (ls ++ lines ++ [last]) :=
    (h.symm.append_right _).append_right _
  obtain ⟨means', hmeans', hsame⟩ := List.perm_comp_forall₂ hperm hmeans.1
  obtain ⟨ds', hds', hpairs'⟩ := (reads_iff (unlines (ls' ++ lines) ++ last) _).2
    ⟨means', (linesMean_unlines (List.forall_mem_append.2 ⟨hls', hlines⟩) hlast).2
      ⟨hmeans', hmeans.2⟩, rfl⟩
  -- the same names and values are defined, in another order
  have hdefs : (ds'.map fun d => (d.name, d.value)).Perm (ds.map fun d => (d.name, d.value)) := by
    rw [hpairs, hpairs']
    exact hsame.filterMap id
  have hnames : (ds'.map Definition.name).Perm (ds.map Definition.name) := by
    simpa [List.map_map, Function.comp_def] using hdefs.map Prod.fst
  have hnodup := hnames.nodup_iff.2 ((exists_defineAll_iff ds empty).1 ⟨m, hm⟩).1
  obtain ⟨m', hm'⟩ := (exists_defineAll_iff ds' empty).2 ⟨hnodup, fun _ _ => rfl⟩
  have hmem : ∀ n v, (∃ d ∈ ds', d.name = n ∧ d.value = v) ↔ ∃ d ∈ ds, d.name = n ∧ d.value = v := by
    intro n v
    simpa [List.mem_map] using hdefs.mem_iff (a := (n, v))
  have hsame : m' = m := by
    refine ext_get? fun n => Option.ext fun e => ?_
    rw [get?_defineAll hm, get?_defineAll hm']
    refine or_congr_right ?_
    constructor
    · rintro ⟨d, hd, hname, rfl⟩
      obtain ⟨d', hd', hname', hvalue⟩ := (hmem n d.value).1 ⟨d, hd, hname, rfl⟩
      exact ⟨d', hd', hname', by rw [hvalue]⟩
    · rintro ⟨d, hd, hname, rfl⟩
      obtain ⟨d', hd', hname', hvalue⟩ := (hmem n d.value).2 ⟨d, hd, hname, rfl⟩
      exact ⟨d', hd', hname', by rw [hvalue]⟩
  rw [← List.append_assoc, ← unlines_append]
  exact parse_eq_ok_iff.2 ⟨ds', hds', hsame ▸ hm'⟩

/-! ## Main theorem -/

theorem parse_eq_error_iff {source s : Text} {e : SourceError} :
    parse source s = .error e ↔ ∃ d, read s = .error d ∧ e = d.inSource source s := by
  unfold parse
  cases read s with
  | error d => simp [Except.mapError, eq_comm]
  | ok m => simp [Except.mapError]

theorem parse_eq_ok_iff_read {source s : Text} {m : Bindings} :
    parse source s = .ok m ↔ read s = .ok m := by
  unfold parse
  cases read s <;> simp [Except.mapError]

/-- Lines `t` and a text `s` put together. An error of the lines stays what it is. Where the lines are bindings,
    and `s` is bindings of other names, the two together bind what either binds; the first complete definition
    in `s` of a name that the lines bind is refused where its name starts; and if there is none, an error of
    `s` is reported as it is, with its line moved down by the lines in front. So lines may also stand in
    another order. -/
theorem parse_concatenated (source : Text) {t : Text} (ht : ∀ c ∈ t.getLast?, c = '\n') (s : Text) :
    (∀ e, parse source t = .error e → parse source (t ++ s) = .error e) ∧
    (∀ b, parse source t = .ok b →
      (∀ m, parse source s = .ok m → (∀ n, b.get? n = none ∨ m.get? n = none) →
        ∃ m', parse source (t ++ s) = .ok m' ∧ ∀ n, m'.get? n = (b.get? n).or (m.get? n)) ∧
      (∀ before d, Completes s before d → b.get? d.name ≠ none →
        (∀ d' ∈ before, b.get? d'.name = none) →
        ∃ pre e u, s = pre ++ d.start ∧ BindsAt d.name d.value d.start e ∧ readEnd e = .ok u ∧
          parse source (t ++ s) =
            .error ⟨⟨source, (Position.after pre).below t⟩, .redefinition d.name⟩) ∧
      (∀ e, parse source s = .error e →
        (∀ before d, Completes s before d → b.get? d.name = none) →
        parse source (t ++ s) = .error (e.below t))) ∧
    ∀ ls ls', t = unlines ls → (∀ l ∈ ls, '\n' ∉ l) → ls.Perm ls' →
      ∀ m, parse source (t ++ s) = .ok m → parse source (unlines ls' ++ s) = .ok m := by
  refine ⟨?_, ?_, ?_⟩
  · intro e he
    obtain ⟨d, hd, rfl⟩ := parse_eq_error_iff.1 he
    refine parse_eq_error_iff.2 ⟨d.inFrontOf s, ?_, (Defect.inSource_inFrontOf source t s d).symm⟩
    rw [read_append ht, hd]
  · intro b hb
    have happend : read (t ++ s) = readInto b s := by
      rw [read_append ht, parse_eq_ok_iff_read.1 hb]
    refine ⟨?_, ?_, ?_⟩
    · intro m hm hdisjoint
      obtain ⟨m', hm', hget⟩ := readInto_of_disjoint (parse_eq_ok_iff_read.1 hm) hdisjoint
      exact ⟨m', parse_eq_ok_iff_read.2 (happend.trans hm'), hget⟩
    · intro before d hd hbound hfree
      have hclash := readInto_of_clash hd hbound hfree
      obtain ⟨⟨pre, hpre⟩, e, u, hbinds, hend⟩ :=
        (definitions_places s).1 d (hd.read.subset (List.mem_append_right _ List.mem_cons_self))
      refine ⟨pre, e, u, hpre.symm, hbinds, hend, ?_⟩
      refine parse_eq_error_iff.2 ⟨_, happend.trans hclash, ?_⟩
      rw [Defect.inSource_append source ht ⟨pre, hpre⟩, Defect.inSource, SourceError.below]
      simp only
      rw [← hpre, Position.before_append]
    · intro e he hfree
      obtain ⟨d, hd, rfl⟩ := parse_eq_error_iff.1 he
      have herror := readInto_of_error hd hfree
      refine parse_eq_error_iff.2 ⟨d, happend.trans herror, ?_⟩
      exact (Defect.inSource_append source ht (defect_suffix_of_readInto herror)).symm
  · rintro ls ls' rfl hls hperm m hm
    exact parse_perm hls hperm hm

/-- A name of the first text that the second binds again on its second line. -/
theorem parse_concatenated_clash :
    Completes "b 2\na 3\n".toList [⟨"b 2\na 3\n".toList, ['b'], ['2']⟩] ⟨"a 3\n".toList, ['a'], ['3']⟩ ∧
    parse [] ("a 1\n".toList ++ "b 2\na 3\n".toList) = .error ⟨⟨[], ⟨3, 1⟩⟩, .redefinition ['a']⟩ := by
  have hcompletes : Completes "b 2\na 3\n".toList [⟨"b 2\na 3\n".toList, ['b'], ['2']⟩]
      ⟨"a 3\n".toList, ['a'], ['3']⟩ := ⟨by decide +kernel, by decide⟩
  have hbound : parse [] "a 1\n".toList = .ok (empty.insert ['a'] "a 1".toList) := by decide +kernel
  have hends : ∀ c ∈ "a 1\n".toList.getLast?, c = '\n' := fun c hc => (Option.some.inj hc).symm
  obtain ⟨pre, e, u, hpre, -, -, herror⟩ :=
    ((parse_concatenated [] hends "b 2\na 3\n".toList).2.1 _ hbound).2.1
      _ _ hcompletes (by decide) (by decide)
  obtain rfl : pre = "b 2\n".toList := List.append_cancel_right (hpre.symm.trans rfl)
  exact ⟨hcompletes, herror⟩

end TextTemplate.Bindings

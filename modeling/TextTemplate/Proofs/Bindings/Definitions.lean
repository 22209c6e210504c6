import TextTemplate.Proofs.Bindings.Map
import TextTemplate.Proofs.Bindings.Segments

/-!
# Definitions

A definition is a name, a value and an end. It is read where these stand, and it never reaches beyond its line
but for the newline that may end it.

Main results:
* `readDefinition_eq_ok_iff`: a definition is read where a name, a value and an end stand.
* `bindsAt_append_iff`, `readEnd_append_iff`: names, values and ends within a line.
* `exists_defineAll_iff`, `get?_defineAll`: when names can be bound, and what to.
-/

namespace TextTemplate.Bindings

/-! ## Specification -/

/-- A name and a value at the front of a text, with the spaces between them: what is left is `e`. The spaces at
    the end of the value do not count if its last segment is unquoted. -/
inductive BindsAt : Text → Text → Text → Text → Prop
  | intro {s t g u e : Text} {names before : List Segment} {last : Segment} :
      SegmentsAt isBarewordChar names s t → names ≠ [] → IsRun isSpace t g u →
      SegmentsAt isValueChar (before ++ [last]) u e →
      BindsAt (names.flatMap Segment.text) (before.flatMap Segment.text ++ last.textAtEnd) s e

/-! ## Reading definitions -/

theorem not_isBarewordChar_of_isQuote {q : Char} (h : isQuote q = true) :
    isBarewordChar q = false := by
  simp only [isQuote, Bool.or_eq_true, beq_iff_eq] at h
  rcases h with rfl | rfl <;> decide

theorem not_isValueChar_of_isQuote {q : Char} (h : isQuote q = true) : isValueChar q = false := by
  simp [isValueChar, h]

theorem isValueChar_of_isSpace {c : Char} (h : isSpace c = true) : isValueChar c = true := by
  obtain rfl : c = ' ' := by simpa [isSpace] using h
  decide

/-- Nothing but a value ends where spaces follow. -/
theorem SegmentsAt.dropWhile_isSpace {s e : Text} {ss : List Segment}
    (h : SegmentsAt isValueChar ss s e) : e.dropWhile isSpace = e := by
  cases e with
  | nil => rfl
  | cons c e =>
    have hc : isSpace c = false := by
      by_contra hc
      have hstop := (h.stop c rfl).2
      rw [isValueChar_of_isSpace (by simpa using hc)] at hstop
      cases hstop
    rw [List.dropWhile_cons, hc]
    rfl

theorem BindsAt.unique {name value name' value' s e e' : Text} (h : BindsAt name value s e)
    (h' : BindsAt name' value' s e') : name = name' ∧ value = value' ∧ e = e' := by
  cases h with
  | intro hname _ hrun hvalue =>
    cases h' with
    | intro hname' _ hrun' hvalue' =>
      obtain ⟨rfl, rfl⟩ := hname.unique (fun _ => not_isBarewordChar_of_isQuote) hname'
      rw [← hrun.dropWhile_eq] at hvalue
      rw [← hrun'.dropWhile_eq] at hvalue'
      obtain ⟨hsegments, rfl⟩ := hvalue.unique (fun _ => not_isValueChar_of_isQuote) hvalue'
      obtain ⟨rfl, hlast⟩ := List.append_inj' hsegments rfl
      cases hlast
      exact ⟨rfl, rfl, rfl⟩

/-- A name does not start with a space. -/
theorem BindsAt.head {name value s e : Text} (h : BindsAt name value s e) :
    ∀ c ∈ s.head?, isSpace c = false := by
  have hspace : ∀ c, isSpace c = true → isQuote c = false ∧ isBarewordChar c = false := by
    intro c hc
    obtain rfl : c = ' ' := by simpa [isSpace] using hc
    decide
  intro c hc
  by_contra hcontra
  obtain ⟨hquote, hbareword⟩ := hspace c (by simpa using hcontra)
  cases h with
  | intro hname hne _ _ =>
    cases hname with
    | nil => exact hne rfl
    | quoted hq _ _ =>
      cases hc
      rw [hq] at hquote
      cases hquote
    | plain hrun hne' _ =>
      obtain ⟨d, v, rfl, hd, -, -⟩ := hrun.exists_cons hne'
      cases hc
      rw [hd] at hbareword
      cases hbareword

/-- A definition is read where a name and a value stand, with an end behind them. -/
theorem readDefinition_eq_ok_iff {s u : Text} {d : Definition} :
    readDefinition s = .ok (d, u) ↔
      d.start = s ∧ ∃ e, BindsAt d.name d.value s e ∧ readEnd e = .ok u := by
  constructor
  · intro h
    unfold readDefinition at h
    split at h
    · cases h
    · cases h
    · rename_i names t hnames hname
      split at h
      · cases h
      · cases h
      · rename_i values e hvalues hvalue
        obtain ⟨v, hend, heq⟩ := exists_of_map_eq_ok h
        cases heq
        have hvalue := segmentsAt_of_read hvalue
        rw [hvalue.dropWhile_isSpace] at hend
        obtain ⟨before, last, rfl⟩ := (List.eq_nil_or_concat values).resolve_left hvalues
        rw [List.concat_eq_append] at hvalue ⊢
        refine ⟨rfl, e, ?_, hend⟩
        rw [valueText_concat]
        exact .intro (segmentsAt_of_read hname) hnames (isRun_takeWhile isSpace t) hvalue
  · obtain ⟨start, name, value⟩ := d
    rintro ⟨rfl, e, hbinds, hend⟩
    cases hbinds with
    | intro hname hnames hrun hvalue =>
      rw [← hrun.dropWhile_eq] at hvalue
      have hname := (readSegments_eq_ok_iff fun _ => not_isBarewordChar_of_isQuote).2 hname
      have hvalue' := (readSegments_eq_ok_iff fun _ => not_isValueChar_of_isQuote).2 hvalue
      unfold readDefinition
      rw [hname]
      split
      · rename_i h; cases h
      · rename_i h; cases h; exact absurd rfl hnames
      · rename_i h
        cases h
        rw [hvalue']
        split
        · rename_i h; cases h
        · rename_i h; simp at h
        · rename_i h
          cases h
          rw [hvalue.dropWhile_isSpace, hend, valueText_concat]
          rfl

/-! ## Definitions within a line -/

/-- A name and a value stand within a line, whatever follows the line. -/
theorem bindsAt_append_iff {s : Text} (hs : '\n' ∉ s) {r : Text} (hr : FollowsLine r)
    {name value u : Text} :
    BindsAt name value (s ++ r) u ↔ ∃ e, BindsAt name value s e ∧ u = e ++ r := by
  have hname : ∀ {t ss}, SegmentsAt isBarewordChar ss (s ++ r) t ↔
      ∃ e, SegmentsAt isBarewordChar ss s e ∧ t = e ++ r :=
    segmentsAt_append_iff (fun _ => not_isBarewordChar_of_isQuote) (by decide) hs hr
  constructor
  · intro h
    cases h with
    | intro hnames hne hrun hvalue =>
      obtain ⟨t, ht, rfl⟩ := hname.1 hnames
      have hn : '\n' ∉ t.dropWhile isSpace := fun h =>
        hs (ht.suffix.subset ((List.dropWhile_suffix _).subset h))
      rw [← hrun.dropWhile_eq, dropWhile_append (by decide) hr,
        segmentsAt_append_iff (fun _ => not_isValueChar_of_isQuote) (by decide) hn hr] at hvalue
      obtain ⟨e, he, rfl⟩ := hvalue
      exact ⟨e, .intro ht hne (isRun_takeWhile isSpace t) he, rfl⟩
  · rintro ⟨e, h, rfl⟩
    cases h with
    | intro hnames hne hrun hvalue =>
      have hn := fun h => hs (hnames.suffix.subset (hrun.suffix.subset h))
      exact .intro (hname.2 ⟨_, hnames, rfl⟩) hne (hrun.append (by decide) hr)
        ((segmentsAt_append_iff (fun _ => not_isValueChar_of_isQuote) (by decide) hn hr).2
          ⟨_, hvalue, rfl⟩)

theorem BindsAt.suffix {name value s e : Text} (h : BindsAt name value s e) : e <:+ s := by
  cases h with
  | intro hname _ hrun hvalue => exact hvalue.suffix.trans (hrun.suffix.trans hname.suffix)

theorem readEnd_comment {s u : Text} (h : comment? s = some u) : readEnd ('$' :: s) = .ok u := by
  rw [readEnd, h]

/-- A definition ends with its line and the newline, or with a dollar sign and a comment. -/
theorem readEnd_append_iff {e : Text} (he : '\n' ∉ e) {r : Text} (hr : FollowsLine r) {u : Text} :
    readEnd (e ++ r) = .ok u ↔ e = [] ∧ r = '\n' :: u ∨ ['$', '-', '-'] <+: e ∧ u = r := by
  constructor
  · intro h
    match e with
    | [] =>
      left
      cases hr with
      | nil => cases h
      | newline s => cases h; exact ⟨rfl, rfl⟩
    | c :: e =>
      right
      rw [List.cons_append] at h
      unfold readEnd at h
      split at h
      · rename_i heq
        obtain ⟨rfl, -⟩ := List.cons.inj heq
        exact absurd List.mem_cons_self he
      · rename_i heq
        obtain ⟨rfl, rfl⟩ := List.cons.inj heq
        split at h
        · rename_i hcomment
          cases h
          have he' := fun h => he (List.mem_cons_of_mem _ h)
          obtain ⟨hdashes, rfl⟩ := (comment?_append_eq_some_iff he' hr).1 hcomment
          exact ⟨List.cons_prefix_cons.2 ⟨rfl, hdashes⟩, rfl⟩
        · cases h
      · cases h
  · rintro (⟨rfl, rfl⟩ | ⟨⟨v, rfl⟩, rfl⟩)
    · rfl
    · have he' : '\n' ∉ '-' :: '-' :: v := fun h => he (List.mem_cons_of_mem _ h)
      have hcomment := (comment?_append_eq_some_iff he' hr).2 ⟨⟨v, rfl⟩, rfl⟩
      exact readEnd_comment hcomment

/-! ## Binding names -/

/-- Names can be bound if there is none twice and none that is bound. -/
theorem exists_defineAll_iff (ds : List Definition) (b : Bindings) :
    (∃ m, defineAll b ds = .ok m) ↔
      (ds.map Definition.name).Nodup ∧ ∀ d ∈ ds, b.get? d.name = none := by
  induction ds generalizing b with
  | nil => simp [defineAll]
  | cons d ds ih =>
    rw [List.map_cons, List.nodup_cons, List.forall_mem_cons]
    unfold defineAll
    split
    · rename_i hb
      constructor
      · rintro ⟨m, hm⟩; cases hm
      · rintro ⟨-, hname, -⟩; exact absurd hname (get?_ne_none_of_define? hb)
    · rename_i b' hb
      rw [ih b']
      constructor
      · rintro ⟨hnodup, hfree⟩
        have hfree' : ∀ d' ∈ ds, d'.name ≠ d.name ∧ b.get? d'.name = none := by
          intro d' hd'
          have := hfree d' hd'
          rw [get?_define hb] at this
          split_ifs at this with hname
          exact ⟨hname, this⟩
        refine ⟨⟨?_, hnodup⟩, get?_eq_none_of_define? hb, fun d' hd' => (hfree' d' hd').2⟩
        intro hmem
        obtain ⟨d', hd', hname⟩ := List.mem_map.1 hmem
        exact (hfree' d' hd').1 hname
      · rintro ⟨⟨hnew, hnodup⟩, -, hfree⟩
        refine ⟨hnodup, fun d' hd' => ?_⟩
        rw [get?_define hb, if_neg]
        · exact hfree d' hd'
        · intro hname
          exact hnew (List.mem_map.2 ⟨d', hd', hname⟩)

/-- The names that were bound are bound to themselves and their values. -/
theorem get?_defineAll {ds : List Definition} {b m : Bindings} (h : defineAll b ds = .ok m)
    {n e : Text} :
    m.get? n = some e ↔ b.get? n = some e ∨ ∃ d ∈ ds, d.name = n ∧ e = n ++ ' ' :: d.value := by
  induction ds generalizing b with
  | nil => cases h; simp
  | cons d ds ih =>
    unfold defineAll at h
    split at h
    · cases h
    · rename_i b' hb
      have hfresh := get?_eq_none_of_define? hb
      rw [ih h, get?_define hb]
      simp only [List.mem_cons, exists_eq_or_imp]
      rw [← or_assoc]
      refine or_congr_left ?_
      by_cases hn : n = d.name
      · subst hn
        rw [if_pos rfl, hfresh]
        simp [eq_comm]
      · rw [if_neg hn]
        simp [Ne.symm hn]

end TextTemplate.Bindings

import TextTemplate.Bindings.Reader
import TextTemplate.Proofs.Text.Lines

/-!
# Names and values

Names and values are maximal sequences of quoted strings and unquoted runs. They are read where they stand, and
within a line they are read as if nothing followed the line.

Main results:
* `readSegments_eq_ok_iff`: segments are read exactly where there are some.
* `readSegments_append`, `segmentsAt_append_iff`: what is read within a line.
* `valueText_concat`: a value, by its last segment.
-/

namespace TextTemplate.Bindings

/-! ## Specification -/

/-- At the front of the text there are these segments, as many as follow each other, with runs of `p`. -/
inductive SegmentsAt (p : Char → Bool) : List Segment → Text → Text → Prop
  | nil {r : Text} : (∀ c ∈ r.head?, isQuote c = false ∧ p c = false) → SegmentsAt p [] r r
  | quoted {q : Char} {w t s r : Text} {ss : List Segment} : isQuote q = true →
      Quoted.Writes q w t → SegmentsAt p ss s r →
      SegmentsAt p (.quoted t :: ss) (q :: (w ++ q :: s)) r
  | plain {s t u r : Text} {ss : List Segment} : IsRun p s t u → t ≠ [] → SegmentsAt p ss u r →
      SegmentsAt p (.plain t :: ss) s r

/-- The text that a segment contributes at the end of a value: the spaces at the end of an unquoted one do not
    count. -/
def Segment.textAtEnd : Segment → Text
  | .quoted t => t
  | .plain t => trimEnd t

/-! ## Reading segments -/

section Reading

variable {p : Char → Bool}

theorem readSegments_quoted {q : Char} (hq : isQuote q = true) (s : Text) :
    readSegments p (q :: s) =
      match Quoted.read q s with
      | .error f => .error f
      | .ok (t, u) => (readSegments p u).map fun (ss, v) => (.quoted t :: ss, v) := by
  rw [readSegments, if_pos hq]
  split <;> simp_all

theorem readSegments_plain {c : Char} (hq : isQuote c = false) (hc : p c = true) (s : Text) :
    readSegments p (c :: s) =
      (readSegments p (s.dropWhile p)).map fun (ss, v) => (.plain (c :: s.takeWhile p) :: ss, v) := by
  rw [readSegments, if_neg (by simp [hq]), if_pos hc]

theorem readSegments_stop {s : Text} (hs : ∀ c ∈ s.head?, isQuote c = false ∧ p c = false) :
    readSegments p s = .ok ([], s) := by
  cases s with
  | nil => rw [readSegments]
  | cons c s =>
    obtain ⟨hq, hp⟩ := hs c rfl
    rw [readSegments, if_neg (by simp [hq]), if_neg (by simp [hp])]

theorem segmentsAt_of_read {s r : Text} {ss : List Segment} (h : readSegments p s = .ok (ss, r)) :
    SegmentsAt p ss s r := by
  fun_induction readSegments p s generalizing ss with
  | case1 => cases h; exact .nil (by simp)
  | case2 => cases h
  | case3 c s hc t u hr ih =>
    obtain ⟨⟨ss', v⟩, k, e⟩ := exists_of_map_eq_ok h
    cases e
    obtain ⟨w, hw, rfl⟩ := Quoted.writes_of_read hr
    exact .quoted hc hw (ih k)
  | case4 c s hq hc ih =>
    obtain ⟨⟨ss', v⟩, k, e⟩ := exists_of_map_eq_ok h
    cases e
    exact .plain (isRun_cons hc) (List.cons_ne_nil _ _) (ih k)
  | case5 c s hq hc =>
    cases h
    refine .nil fun d hd => ?_
    obtain rfl : c = d := by simpa using hd
    exact ⟨by simpa using hq, by simpa using hc⟩

/-- Segments are read exactly where there are some, if quotes are in no run. -/
theorem readSegments_eq_ok_iff (hp : ∀ q, isQuote q = true → p q = false) {s r : Text}
    {ss : List Segment} : readSegments p s = .ok (ss, r) ↔ SegmentsAt p ss s r := by
  constructor
  · exact segmentsAt_of_read
  · intro h
    induction h with
    | nil hr => exact readSegments_stop hr
    | quoted hq hw _ ih =>
      rw [readSegments_quoted hq, Quoted.read_of_writes hq hw]
      simp only [ih]
      rfl
    | plain hrun hne _ ih =>
      obtain ⟨c, v, rfl, hc, rfl, rfl⟩ := hrun.exists_cons hne
      have hq : isQuote c = false := by
        by_contra hq
        rw [hp c (by simpa using hq)] at hc
        cases hc
      rw [readSegments_plain hq hc, ih]
      rfl

/-- Segments are read within a line, whatever follows the line. -/
theorem readSegments_append (hp : p '\n' = false) {s : Text} (hs : '\n' ∉ s) {r : Text}
    (hr : FollowsLine r) : readSegments p (s ++ r) = inFrontOf r (readSegments p s) := by
  fun_induction readSegments p s with
  | case1 =>
    rw [List.nil_append, readSegments_stop]
    · rfl
    · intro c hc
      cases hr with
      | nil => cases hc
      | newline s => cases hc; exact ⟨rfl, hp⟩
  | case2 c s hq f hf =>
    rw [List.cons_append, readSegments_quoted hq,
      Quoted.read_append hq (fun h => hs (List.mem_cons_of_mem _ h)) hr, hf]
    rfl
  | case3 c s hq t u hu ih =>
    have hs' : '\n' ∉ s := fun h => hs (List.mem_cons_of_mem _ h)
    obtain ⟨w, -, rfl⟩ := Quoted.writes_of_read hu
    rw [List.cons_append, readSegments_quoted hq, Quoted.read_append hq hs' hr, hu]
    show (readSegments p (u ++ r)).map _ = _
    rw [ih fun h => hs' (List.mem_append_right _ (List.mem_cons_of_mem _ h)), inFrontOf_map]
  | case4 c s hq hc ih =>
    have hs' : '\n' ∉ s := fun h => hs (List.mem_cons_of_mem _ h)
    rw [List.cons_append, readSegments_plain (by simpa using hq) hc, takeWhile_append hp hr,
      dropWhile_append hp hr, ih fun h => hs' ((List.dropWhile_suffix p).subset h), inFrontOf_map]
  | case5 c s hq hc =>
    rw [readSegments_stop]
    · rfl
    · intro d hd
      obtain rfl : c = d := by simpa using hd
      exact ⟨by simpa using hq, by simpa using hc⟩

theorem SegmentsAt.suffix {s r : Text} {ss : List Segment} (h : SegmentsAt p ss s r) : r <:+ s := by
  induction h with
  | nil => exact List.suffix_rfl
  | quoted _ _ _ ih =>
    exact suffix_cons_of _ (ih.trans ((List.suffix_cons _ _).trans (List.suffix_append _ _)))
  | plain hrun _ _ ih => exact ih.trans hrun.suffix

theorem SegmentsAt.stop {s r : Text} {ss : List Segment} (h : SegmentsAt p ss s r) :
    ∀ c ∈ r.head?, isQuote c = false ∧ p c = false := by
  induction h with
  | nil hr => exact hr
  | quoted _ _ _ ih => exact ih
  | plain _ _ _ ih => exact ih

theorem SegmentsAt.unique (hp : ∀ q, isQuote q = true → p q = false) {s r r' : Text}
    {ss ss' : List Segment} (h : SegmentsAt p ss s r) (h' : SegmentsAt p ss' s r') :
    ss = ss' ∧ r = r' := by
  have := ((readSegments_eq_ok_iff hp).2 h).symm.trans ((readSegments_eq_ok_iff hp).2 h')
  cases this
  exact ⟨rfl, rfl⟩

/-- There are the same segments at the front of a line, whatever follows the line. -/
theorem segmentsAt_append_iff (hp : ∀ q, isQuote q = true → p q = false) (hn : p '\n' = false)
    {s : Text} (hs : '\n' ∉ s) {r : Text} (hr : FollowsLine r) {t : Text} {ss : List Segment} :
    SegmentsAt p ss (s ++ r) t ↔ ∃ e, SegmentsAt p ss s e ∧ t = e ++ r := by
  rw [← readSegments_eq_ok_iff hp, readSegments_append hn hs hr]
  constructor
  · intro h
    cases hread : readSegments p s with
    | error f => rw [hread] at h; cases h
    | ok x => rw [hread] at h; cases h; exact ⟨_, segmentsAt_of_read hread, rfl⟩
  · rintro ⟨e, he, rfl⟩
    rw [(readSegments_eq_ok_iff hp).2 he]
    rfl

end Reading

/-! ## Texts of segments -/

theorem valueText_concat (ss : List Segment) (s : Segment) :
    valueText (ss ++ [s]) = nameText ss ++ s.textAtEnd := by
  induction ss with
  | nil => cases s <;> simp [valueText, nameText, Segment.text, Segment.textAtEnd]
  | cons s' ss ih =>
    have hcons : valueText (s' :: (ss ++ [s])) = s'.text ++ valueText (ss ++ [s]) := by
      rw [valueText]
      intro t _ hnil
      simp at hnil
    rw [List.cons_append, hcons, ih, nameText, nameText, List.flatMap_cons, List.append_assoc]

end TextTemplate.Bindings

import Mathlib.Tactic.SplitIfs
import TextTemplate.Path

/-!
# Components of joined paths and of parents

Joining and taking the parent work on the text of a path. What they do to its components depends on the components
alone: joining puts those of a relative path behind, and the parent lacks the last one. So both give the same path
for every spelling.

Main results:
* `Path.components_join`, `Path.components_parent`: components of joined paths and of parents.
* `Path.Same.join`, `Path.Same.parent`: joining and taking the parent respect sameness.
-/

namespace TextTemplate.Path

/-! ## Segments -/

theorem not_mem_of_mem_splitOn (x : PathChar) (s : Spelling) : ∀ l ∈ s.splitOn x, x ∉ l := by
  intro l hl
  by_cases hx : x ∈ s
  · obtain ⟨a, b, hs, ha⟩ := List.eq_append_cons_of_mem hx
    rw [hs, List.splitOn_append_cons_self_of_not_mem ha, List.mem_cons] at hl
    rcases hl with rfl | hl
    · exact ha
    · exact not_mem_of_mem_splitOn x b l hl
  · rw [List.splitOn_eq_singleton hx, List.mem_singleton] at hl
    rw [hl]
    exact hx
termination_by s.length
decreasing_by
  rw [hs, List.length_append, List.length_cons]
  omega

/-- The components that the segments of a text stand for. -/
def names (s : Spelling) : List Component := (s.splitOn .slash).filterMap Component.ofSegment?

theorem map_marksFrom (n : Nat) (ss : List Spelling) :
    (marksFrom n ss).map Prod.fst = ss.filterMap Component.ofSegment? := by
  induction ss generalizing n with
  | nil => rfl
  | cons s ss ih =>
    rw [marksFrom]
    cases hs : Component.ofSegment? s with
    | none => rw [List.filterMap_cons_none hs, ih]
    | some c => rw [List.filterMap_cons_some hs, List.map_cons, ih]

theorem marks_root (s : Spelling) : marks ⟨.slash :: s⟩ = (.root, 1) :: marksFrom 1 (s.splitOn .slash) := by
  have hsplit : (.slash :: s).splitOn .slash = [] :: s.splitOn .slash :=
    List.splitOn_append_cons_self_of_not_mem (by simp : .slash ∉ ([] : Spelling)) s
  rw [marks, hsplit]
  rfl

theorem components_root (s : Spelling) : components ⟨.slash :: s⟩ = .root :: names s := by
  rw [components, marks_root, List.map_cons, map_marksFrom, names]

/-- What stands behind a slash is put behind. -/
theorem components_append_slash {a : Spelling} (ha : a ≠ []) (b : Spelling) :
    components ⟨a ++ .slash :: b⟩ = components ⟨a⟩ ++ names b := by
  obtain ⟨s, ss, hs⟩ := List.exists_cons_of_ne_nil (List.splitOn_ne_nil .slash a)
  have hsplit : (a ++ .slash :: b).splitOn .slash = s :: (ss ++ b.splitOn .slash) := by
    rw [List.splitOn_append_cons_self, hs, List.cons_append]
  have habsolute : IsAbsolute ⟨a ++ .slash :: b⟩ ↔ IsAbsolute ⟨a⟩ := by
    obtain ⟨c, a, rfl⟩ := List.exists_cons_of_ne_nil ha
    exact Iff.rfl
  rw [components, marks, hsplit, components, marks, hs]
  simp only [habsolute]
  split_ifs
  · simp [map_marksFrom, names]
  · simp [map_marksFrom, names]
  · rw [map_marksFrom, map_marksFrom, ← List.cons_append, List.filterMap_append, names]

/-! ## Joining -/

theorem components_ne_nil (c : PathChar) (r : Spelling) : components ⟨c :: r⟩ ≠ [] := by
  by_cases hc : c = .slash
  · rw [hc, components_root]
    exact List.cons_ne_nil _ _
  · obtain ⟨s, ss, hs⟩ := List.exists_cons_of_ne_nil (List.splitOn_ne_nil .slash r)
    have hsplit : (c :: r).splitOn .slash = (c :: s) :: ss := by
      rw [List.splitOn_cons_eq_if_modifyHead, if_neg (by simpa using hc), hs, List.modifyHead_cons]
    have habsolute : ¬ IsAbsolute ⟨c :: r⟩ := by
      intro h
      exact hc (Option.some.inj h)
    rw [components, marks, hsplit]
    simp only [if_neg habsolute]
    split_ifs with hdot
    · exact List.cons_ne_nil _ _
    · rw [map_marksFrom]
      by_cases hup : c :: s = [.dot, .dot]
      · simp [Component.ofSegment?, hup]
      · simp [Component.ofSegment?, hup, hdot]

/-- Only the empty text has no components. -/
theorem components_eq_nil_iff {p : Path} : p.components = [] ↔ p.spelling = [] := by
  obtain ⟨t⟩ := p
  cases t with
  | nil => exact ⟨fun _ => rfl, fun _ => rfl⟩
  | cons c r =>
    exact ⟨fun h => absurd h (components_ne_nil c r), fun h => absurd h (List.cons_ne_nil c r)⟩

/-- A relative path puts its components behind. -/
theorem components_join {p q : Path} (hq : ¬ q.IsAbsolute) (hp : p.spelling ≠ []) :
    (p.join q).components = p.components ++ names q.spelling := by
  rw [join, if_neg hq]
  split_ifs with h
  · obtain ⟨a, ha⟩ := List.getLast?_eq_some_iff.1 (h.resolve_left hp)
    have hp' : p = ⟨a ++ .slash :: []⟩ := congrArg Path.mk ha
    have hnil : names [] = [] := rfl
    rw [ha, List.append_assoc, List.singleton_append, hp']
    cases a with
    | nil => rw [List.nil_append, List.nil_append, components_root, components_root, hnil]; rfl
    | cons c a =>
      rw [components_append_slash (List.cons_ne_nil c a), components_append_slash (List.cons_ne_nil c a),
        hnil, List.append_nil]
  · exact components_append_slash hp q.spelling

theorem Same.join {p p' : Path} (h : p.Same p') (q : Path) : (p.join q).Same (p'.join q) := by
  by_cases hq : q.IsAbsolute
  · rw [join_absolute p hq, join_absolute p' hq]
    exact Same.refl q
  · have hiff : p.spelling = [] ↔ p'.spelling = [] := by
      rw [← components_eq_nil_iff, ← components_eq_nil_iff, show p.components = p'.components from h]
    by_cases hp : p.spelling = []
    · rw [show p = p' from congrArg Path.mk (hp.trans (hiff.1 hp).symm)]
      exact Same.refl _
    · rw [Same, components_join hq hp, components_join hq (mt hiff.2 hp),
        show p.components = p'.components from h]

/-! ## Parents -/

/-- The mark of a component stands at the end of its segment. -/
theorem exists_of_marksFrom {n k : Nat} {ss : List Spelling} {pre post : List (Component × Nat)}
    {c : Component} (h : marksFrom n ss = pre ++ (c, k) :: post) :
    ∃ ts us, ss = ts ++ us ∧ ts ≠ [] ∧ marksFrom n ts = pre ++ [(c, k)] ∧
      k = n + ([.slash].intercalate ts).length := by
  induction ss generalizing n pre with
  | nil => simp [marksFrom] at h
  | cons s ss ih =>
    rw [marksFrom] at h
    have hbehind : ∀ {pre}, marksFrom (n + s.length + 1) ss = pre ++ (c, k) :: post →
        ∃ ts us, s :: ss = s :: (ts ++ us) ∧ ts ≠ [] ∧
          marksFrom (n + s.length + 1) ts = pre ++ [(c, k)] ∧
          k = n + ([.slash].intercalate (s :: ts)).length := by
      intro pre h
      obtain ⟨ts, us, rfl, hne, hmarks, hk⟩ := ih h
      refine ⟨ts, us, rfl, hne, hmarks, ?_⟩
      obtain ⟨t, ts, rfl⟩ := List.exists_cons_of_ne_nil hne
      rw [hk, List.intercalate_cons_cons, List.length_append, List.length_append, List.length_singleton]
      omega
    cases hs : Component.ofSegment? s with
    | none =>
      simp only [hs] at h
      obtain ⟨ts, us, hsplit, -, hmarks, hk⟩ := hbehind h
      refine ⟨s :: ts, us, hsplit, List.cons_ne_nil _ _, ?_, hk⟩
      rw [marksFrom, hs]
      exact hmarks
    | some d =>
      simp only [hs] at h
      cases pre with
      | nil =>
        cases h
        refine ⟨[s], ss, rfl, List.cons_ne_nil _ _, ?_, ?_⟩
        · rw [marksFrom, hs]; rfl
        · simp
      | cons e pre =>
        obtain ⟨rfl, htail⟩ := List.cons.inj h
        obtain ⟨ts, us, hsplit, -, hmarks, hk⟩ := hbehind htail
        refine ⟨s :: ts, us, hsplit, List.cons_ne_nil _ _, ?_, hk⟩
        rw [marksFrom, hs]
        exact congrArg _ hmarks

theorem intercalate_prefix {ts : List Spelling} (h : ts ≠ []) (us : List Spelling) :
    [.slash].intercalate ts <+: [.slash].intercalate (ts ++ us) := by
  induction ts with
  | nil => exact absurd rfl h
  | cons t ts ih =>
    cases ts with
    | nil =>
      cases us with
      | nil => exact List.prefix_rfl
      | cons u us =>
        rw [List.intercalate_singleton, List.singleton_append, List.intercalate_cons_cons, List.append_assoc]
        exact List.prefix_append _ _
    | cons t' ts =>
      rw [List.cons_append, List.cons_append, List.intercalate_cons_cons, List.intercalate_cons_cons]
      exact (List.prefix_append_right_inj _).2 (ih (List.cons_ne_nil _ _))

/-- The first segments of a text make up its front. -/
theorem take_segments {s : Spelling} {ts us : List Spelling} (h : s.splitOn .slash = ts ++ us) (hne : ts ≠ []) :
    s.take ([.slash].intercalate ts).length = [.slash].intercalate ts ∧
      ([.slash].intercalate ts).splitOn .slash = ts := by
  constructor
  · have hprefix := intercalate_prefix hne us
    rw [← h, List.intercalate_splitOn] at hprefix
    exact (List.prefix_iff_eq_take.1 hprefix).symm
  · refine List.splitOn_intercalate .slash (fun l hl => ?_) hne
    refine not_mem_of_mem_splitOn .slash s l ?_
    rw [h]
    exact List.mem_append_left _ hl

theorem marks_here (s : Spelling) : marks ⟨.dot :: .slash :: s⟩ = (.here, 1) :: marksFrom 2 (s.splitOn .slash) := by
  have hsplit : (.dot :: .slash :: s).splitOn .slash = [.dot] :: s.splitOn .slash :=
    List.splitOn_append_cons_self_of_not_mem (by decide : .slash ∉ [.dot]) s
  rw [marks, hsplit]
  rfl

/-- Neither a root nor a dot is at the front. -/
theorem marks_of_front {p : Path} {s : Spelling} {ss : List Spelling} (hp : ¬ p.IsAbsolute)
    (hs : p.spelling.splitOn .slash = s :: ss) (hdot : s ≠ [.dot]) : p.marks = marksFrom 0 (s :: ss) := by
  rw [marks, hs]
  simp only [if_neg hp, if_neg hdot]

/-- Behind a root or a dot at the front, the marks up to the end of a component stay. -/
theorem marks_take_of_front {f t : Spelling} {d c : Component} {k : Nat}
    {pre post : List (Component × Nat)} (hf : f ≠ []) (hfront : marks ⟨f.take 1⟩ = [(d, 1)])
    (hmarks : ∀ s, marks ⟨f ++ s⟩ = (d, 1) :: marksFrom f.length (s.splitOn .slash))
    (h : marks ⟨f ++ t⟩ = pre ++ (c, k) :: post) :
    marks ⟨(f ++ t).take k⟩ = pre ++ [(c, k)] := by
  rw [hmarks] at h
  cases pre with
  | nil =>
    cases h
    rw [List.take_append_of_le_length (List.length_pos_iff.2 hf)]
    exact hfront
  | cons e pre =>
    obtain ⟨rfl, htail⟩ := List.cons.inj h
    obtain ⟨ts, us, hsplit, hne, hts, hk⟩ := exists_of_marksFrom htail
    obtain ⟨htake, hsegments⟩ := take_segments hsplit hne
    have htext : (f ++ t).take k = f ++ [.slash].intercalate ts := by
      rw [hk, List.take_length_add_append, htake]
    rw [htext, hmarks, hsegments, hts]
    rfl

/-- Up to the end of a component the marks stay. -/
theorem marks_take {p : Path} {k : Nat} {pre post : List (Component × Nat)} {c : Component}
    (h : p.marks = pre ++ (c, k) :: post) : marks ⟨p.spelling.take k⟩ = pre ++ [(c, k)] := by
  obtain ⟨t⟩ := p
  obtain ⟨s, ss, hs⟩ := List.exists_cons_of_ne_nil (List.splitOn_ne_nil .slash t)
  by_cases habsolute : IsAbsolute ⟨t⟩
  · obtain ⟨t, rfl⟩ := List.head?_eq_some_iff.1 habsolute
    exact marks_take_of_front (f := [.slash]) (List.cons_ne_nil _ _) rfl marks_root h
  · by_cases hdot : s = [.dot]
    · have ht : t = [.slash].intercalate ([.dot] :: ss) := by
        rw [← hdot, ← hs, List.intercalate_splitOn]
      cases ss with
      | nil =>
        have hdots : marks ⟨[.dot]⟩ = [(.here, 1)] := rfl
        obtain rfl : t = [.dot] := ht
        rw [hdots] at h
        cases pre with
        | nil => cases h; rfl
        | cons e pre => simp at h
      | cons s' ss =>
        rw [List.intercalate_cons_cons] at ht
        rw [ht] at h ⊢
        exact marks_take_of_front (f := [.dot, .slash]) (List.cons_ne_nil _ _) rfl marks_here h
    · rw [marks_of_front habsolute hs hdot] at h
      obtain ⟨ts, us, hsplit, hne, hmarks, hk⟩ := exists_of_marksFrom h
      obtain ⟨htake, hts⟩ := take_segments (hs.trans hsplit) hne
      rw [Nat.zero_add] at hk
      rw [← hk] at htake
      obtain ⟨s', ts, rfl⟩ := List.exists_cons_of_ne_nil hne
      obtain ⟨rfl, -⟩ := List.cons.inj hsplit
      rw [← htake] at hts
      have hfront : ¬ IsAbsolute ⟨t.take k⟩ := by
        intro hfront
        rw [IsAbsolute, List.head?_take] at hfront
        split_ifs at hfront
        exact habsolute hfront
      exact (marks_of_front hfront hts hdot).trans hmarks

theorem components_parent (p : Path) : p.parent.components = p.components.dropLast := by
  rw [parent]
  split
  · rename_i c k h
    obtain ⟨pre, hpre⟩ := List.getLast?_eq_some_iff.1 h
    have hne : p.marks ≠ [] := by
      intro hnil
      rw [hnil] at hpre
      simp at hpre
    have hmarks : p.marks = pre ++ (c, k) :: [p.marks.getLast hne] := by
      have hsplit := List.dropLast_concat_getLast hne
      rw [hpre, List.append_assoc] at hsplit
      exact hsplit.symm
    rw [components, marks_take hmarks, components, ← List.map_dropLast, hpre]
  · rename_i h
    rw [components, components, ← List.map_dropLast, List.getLast?_eq_none_iff.1 h]
    rfl

theorem Same.parent {p p' : Path} (h : p.Same p') : p.parent.Same p'.parent := by
  rw [Same, components_parent, components_parent, show p.components = p'.components from h]

end TextTemplate.Path

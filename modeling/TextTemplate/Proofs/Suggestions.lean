import TextTemplate.Proofs.EditDistance

/-!
# The best near misses

Candidates that are near misses of a name can be ranked, by their distance first and then by code points. No two of
them are equally good, so the ranking does not depend on the order in which the candidates are given, and the three
that are suggested are where it starts.

Main results:
* `apart_iff`: the number of edits that it takes.
* `ranks_iff`: a ranking of given candidates can be checked.
* `ranks_rankedMisses`, `Ranks.unique`: the ranking of candidates, and that there is no other.
* `suggestions_eq_of_ranks`: the suggestions are its first three.
* `suggestions_congr`, `not_mem_suggestions_self`, `nearer_of_omitted`: what follows for the suggestions.
-/

namespace TextTemplate

/-! ## Specification -/

/-- So many edits lead from one text to the other, and no fewer do. -/
def Apart (s t : Text) (d : Nat) : Prop := IsLeast {n | Edits n s t} d

/-- The candidate is one edit away from the name, or two from a name of more than three characters. -/
def NearMiss (name candidate : Text) : Prop :=
  ∃ d, Apart name candidate d ∧ 1 ≤ d ∧ d ≤ if name.length ≤ 3 then 1 else 2

/-- The first candidate takes fewer edits than the second, or as many and it is lower in code points. -/
def Nearer (name c c' : Text) : Prop :=
  ∃ d d', Apart name c d ∧ Apart name c' d' ∧ (d < d' ∨ d = d' ∧ c < c')

/-- The near misses of a name among candidates, the best first. -/
structure Ranks (name : Text) (candidates ranking : List Text) : Prop where
  /-- They are the near misses. -/
  mem : ∀ c, c ∈ ranking ↔ c ∈ candidates ∧ NearMiss name c
  /-- Each is better than those behind it. -/
  ordered : ranking.Pairwise (Nearer name)

/-! ## Better candidates -/

theorem apart_iff {s t : Text} {d : Nat} : Apart s t d ↔ editDistance s t = d := by
  constructor
  · exact (editDistance_isLeast s t).unique
  · rintro rfl
    exact editDistance_isLeast s t

theorem nearMiss_iff {name c : Text} :
    NearMiss name c ↔ 1 ≤ editDistance name c ∧ editDistance name c ≤ missLimit name := by
  simp only [NearMiss, apart_iff, exists_eq_left', missLimit]

theorem nearer_iff {name c c' : Text} :
    Nearer name c c' ↔ editDistance name c < editDistance name c' ∨
      editDistance name c = editDistance name c' ∧ c < c' := by
  simp only [Nearer, apart_iff, exists_and_left, exists_eq_left']

/-- A list is the ranking if it has no others than near misses, has all of them, and has them in order. -/
theorem ranks_iff {name : Text} {candidates ranking : List Text} :
    Ranks name candidates ranking ↔ (∀ c ∈ ranking, c ∈ candidates ∧ NearMiss name c) ∧
      (∀ c ∈ candidates, NearMiss name c → c ∈ ranking) ∧ ranking.Pairwise (Nearer name) := by
  constructor
  · intro h
    exact ⟨fun c hc => (h.mem c).1 hc, fun c hc hmiss => (h.mem c).2 ⟨hc, hmiss⟩, h.ordered⟩
  · rintro ⟨hsound, hcomplete, hordered⟩
    exact ⟨fun c => ⟨hsound c, fun ⟨hc, hmiss⟩ => hcomplete c hc hmiss⟩, hordered⟩

instance (name c : Text) : Decidable (NearMiss name c) := decidable_of_iff _ nearMiss_iff.symm

instance (name c c' : Text) : Decidable (Nearer name c c') := decidable_of_iff _ nearer_iff.symm

instance (name : Text) (candidates ranking : List Text) : Decidable (Ranks name candidates ranking) :=
  decidable_of_iff _ ranks_iff.symm

theorem not_nearMiss_self (name : Text) : ¬ NearMiss name name := by
  rw [nearMiss_iff, editDistance_self]
  omega

theorem Nearer.asymm {name c c' : Text} (h : Nearer name c c') : ¬ Nearer name c' c := by
  rw [nearer_iff] at h ⊢
  rintro (hlt | ⟨heq, hlt⟩)
  · omega
  · rcases h with h | ⟨-, h⟩
    · omega
    · exact List.lt_irrefl _ (List.lt_trans h hlt)

theorem Nearer.ne {name c c' : Text} (h : Nearer name c c') : c ≠ c' := by
  rintro rfl
  exact h.asymm h

/-! ## The order of the ranking -/

theorem nearerOrEqual_iff {x y : Nat × Text} :
    nearerOrEqual x y = true ↔ x.1 < y.1 ∨ x.1 = y.1 ∧ ¬ y.2 < x.2 := by
  simp [nearerOrEqual]

theorem nearerOrEqual_trans (x y z : Nat × Text) (hxy : nearerOrEqual x y = true)
    (hyz : nearerOrEqual y z = true) : nearerOrEqual x z = true := by
  rw [nearerOrEqual_iff] at hxy hyz ⊢
  rcases hxy with hxy | ⟨hxy, hle⟩
  · left
    omega
  · rcases hyz with hyz | ⟨hyz, hle'⟩
    · left
      omega
    · exact .inr ⟨hxy.trans hyz, List.le_trans hle hle'⟩

theorem nearerOrEqual_total (x y : Nat × Text) : (nearerOrEqual x y || nearerOrEqual y x) = true := by
  rw [Bool.or_eq_true, nearerOrEqual_iff, nearerOrEqual_iff]
  rcases Nat.lt_trichotomy x.1 y.1 with hlt | heq | hgt
  · exact .inl (.inl hlt)
  · exact (List.le_total x.2 y.2).imp (fun h => .inr ⟨heq, h⟩) fun h => .inr ⟨heq.symm, h⟩
  · exact .inr (.inl hgt)

/-! ## The ranking -/

/-- The near misses of a name among candidates, sorted. -/
def rankedMisses (name : Text) (candidates : List Text) : List Text :=
  ((nearMisses name candidates).mergeSort nearerOrEqual).map Prod.snd

theorem suggestions_eq_take (name : Text) (candidates : List Text) :
    suggestions name candidates = (rankedMisses name candidates).take 3 :=
  List.map_take

theorem mem_nearMisses {name : Text} {candidates : List Text} {x : Nat × Text} :
    x ∈ nearMisses name candidates ↔
      x.2 ∈ candidates ∧ NearMiss name x.2 ∧ x.1 = editDistance name x.2 := by
  obtain ⟨d, c⟩ := x
  simp only [nearMisses, List.mem_filter, List.mem_map, Prod.mk.injEq, Bool.and_eq_true, decide_eq_true_eq,
    nearMiss_iff]
  constructor
  · rintro ⟨⟨c, hc, rfl, rfl⟩, hpos, hle⟩
    exact ⟨hc, ⟨hpos, hle⟩, rfl⟩
  · rintro ⟨hc, ⟨hpos, hle⟩, rfl⟩
    exact ⟨⟨c, hc, rfl, rfl⟩, hpos, hle⟩

theorem nodup_nearMisses (name : Text) {candidates : List Text} (h : candidates.Nodup) :
    ((nearMisses name candidates).map Prod.snd).Nodup := by
  have hsublist : List.Sublist ((nearMisses name candidates).map Prod.snd) candidates := by
    have := (List.filter_sublist (p := fun x => 0 < x.1 && x.1 ≤ missLimit name)
      (l := candidates.map fun c => (editDistance name c, c))).map Prod.snd
    rwa [List.map_map, show Prod.snd ∘ (fun c => (editDistance name c, c)) = id from rfl, List.map_id] at this
  exact hsublist.nodup h

theorem ranks_rankedMisses (name : Text) {candidates : List Text} (h : candidates.Nodup) :
    Ranks name candidates (rankedMisses name candidates) := by
  have hperm := List.mergeSort_perm (nearMisses name candidates) nearerOrEqual
  refine ⟨fun c => ?_, ?_⟩
  · rw [rankedMisses, List.mem_map]
    constructor
    · rintro ⟨x, hx, rfl⟩
      obtain ⟨hc, hmiss, -⟩ := mem_nearMisses.1 (hperm.mem_iff.1 hx)
      exact ⟨hc, hmiss⟩
    · rintro ⟨hc, hmiss⟩
      exact ⟨(editDistance name c, c), hperm.mem_iff.2 (mem_nearMisses.2 ⟨hc, hmiss, rfl⟩), rfl⟩
  · have hsorted := List.pairwise_mergeSort nearerOrEqual_trans nearerOrEqual_total (nearMisses name candidates)
    have hnodup : ((nearMisses name candidates).mergeSort nearerOrEqual).Pairwise fun x y => x.2 ≠ y.2 :=
      List.pairwise_map.1 ((hperm.map Prod.snd).nodup_iff.2 (nodup_nearMisses name h))
    refine List.pairwise_map.2 ((hsorted.and hnodup).imp_of_mem fun {x y} hx hy hxy => ?_)
    obtain ⟨-, -, hdx⟩ := mem_nearMisses.1 (hperm.mem_iff.1 hx)
    obtain ⟨-, -, hdy⟩ := mem_nearMisses.1 (hperm.mem_iff.1 hy)
    obtain ⟨hle, hne⟩ := hxy
    rw [nearer_iff, ← hdx, ← hdy]
    rcases nearerOrEqual_iff.1 hle with hlt | ⟨heq, hle⟩
    · exact .inl hlt
    · refine .inr ⟨heq, ?_⟩
      rcases Std.lt_trichotomy x.2 y.2 with hlt | heq | hgt
      · exact hlt
      · exact absurd heq hne
      · exact absurd hgt hle

theorem Ranks.nodup {name : Text} {candidates ranking : List Text} (h : Ranks name candidates ranking) :
    ranking.Nodup :=
  h.ordered.imp Nearer.ne

/-- There is one ranking, in whatever order the candidates are given. -/
theorem Ranks.unique {name : Text} {candidates candidates' ranking ranking' : List Text}
    (h : Ranks name candidates ranking) (h' : Ranks name candidates' ranking')
    (hsame : ∀ c, c ∈ candidates ↔ c ∈ candidates') : ranking = ranking' := by
  have hperm : ranking.Perm ranking' := by
    rw [List.perm_ext_iff_of_nodup h.nodup h'.nodup]
    intro c
    rw [h.mem, h'.mem, hsame]
  exact hperm.eq_of_pairwise (fun c c' _ _ hcc' hc'c => absurd hc'c hcc'.asymm) h.ordered h'.ordered

/-! ## Suggestions -/

section Suggestions

variable {name : Text} {candidates : List Text} (hnodup : candidates.Nodup)
include hnodup

/-- The suggestions are the first three of the ranking. -/
theorem suggestions_eq_of_ranks {ranking : List Text} (h : Ranks name candidates ranking) :
    suggestions name candidates = ranking.take 3 := by
  rw [suggestions_eq_take, h.unique (ranks_rankedMisses name hnodup) fun _ => Iff.rfl]

/-- The order of the candidates does not count. -/
theorem suggestions_congr {candidates' : List Text} (h : candidates'.Perm candidates) :
    suggestions name candidates' = suggestions name candidates := by
  have hranks := ranks_rankedMisses name (h.nodup_iff.2 hnodup)
  rw [suggestions_eq_take name candidates',
    hranks.unique (ranks_rankedMisses name hnodup) fun _ => h.mem_iff, ← suggestions_eq_take]

theorem of_mem_suggestions {c : Text} (h : c ∈ suggestions name candidates) :
    c ∈ candidates ∧ NearMiss name c := by
  rw [suggestions_eq_take] at h
  exact ((ranks_rankedMisses name hnodup).mem c).1 (List.mem_of_mem_take h)

theorem not_mem_suggestions_self : name ∉ suggestions name candidates :=
  fun h => not_nearMiss_self name (of_mem_suggestions hnodup h).2

/-- A near miss that is left out is worse than all that are suggested, and these are three. -/
theorem nearer_of_omitted {c : Text} (hc : c ∈ candidates) (hmiss : NearMiss name c)
    (homitted : c ∉ suggestions name candidates) :
    (suggestions name candidates).length = 3 ∧ ∀ c' ∈ suggestions name candidates, Nearer name c' c := by
  have hranks := ranks_rankedMisses name hnodup
  rw [suggestions_eq_take] at homitted ⊢
  have hdrop : c ∈ (rankedMisses name candidates).drop 3 := by
    have hmem := (hranks.mem c).2 ⟨hc, hmiss⟩
    rw [← List.take_append_drop 3 (rankedMisses name candidates)] at hmem
    exact (List.mem_append.1 hmem).resolve_left homitted
  have hlength := List.length_pos_of_mem hdrop
  rw [List.length_drop] at hlength
  rw [List.length_take]
  exact ⟨by omega, fun c' hc' => hranks.ordered.rel_of_mem_take_of_mem_drop hc' hdrop⟩

end Suggestions

end TextTemplate

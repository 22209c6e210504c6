import TextTemplate.Proofs.Text.Lexemes

/-!
# Lines

A text is some lines, each with its newline, and a last line that has none. What is read within a line does not
depend on what follows the line.

Main results:
* `exists_lines`: every text is lines.
* `splitOn_unlines`: splitting at the newlines gives the lines.
* `closeLine_newline`, `closeLine_cons`: putting a newline behind the last line, character by character.
* `IsRun.append`, `comment?_append_eq_some_iff`, `Quoted.read_append`: runs, comments and quoted strings within
  a line.
-/

namespace TextTemplate

/-! ## The lines of a text -/

/-- Lines, each with a newline behind it. -/
def unlines (ls : List Text) : Text := ls.flatMap (· ++ ['\n'])

theorem unlines_cons (l : Text) (ls : List Text) (s : Text) :
    unlines (l :: ls) ++ s = l ++ '\n' :: (unlines ls ++ s) := by
  simp [unlines]

theorem unlines_concat (ls : List Text) (l : Text) :
    unlines (ls ++ [l]) = unlines ls ++ l ++ ['\n'] := by
  simp [unlines]

theorem unlines_append (ls ls' : List Text) : unlines (ls ++ ls') = unlines ls ++ unlines ls' :=
  List.flatMap_append

theorem exists_lines (s : Text) :
    ∃ ls last, s = unlines ls ++ last ∧ (∀ l ∈ ls, '\n' ∉ l) ∧ '\n' ∉ last := by
  induction s with
  | nil => exact ⟨[], [], rfl, by simp, by simp⟩
  | cons c s ih =>
    obtain ⟨ls, last, rfl, hls, hlast⟩ := ih
    by_cases hc : c = '\n'
    · subst hc
      refine ⟨[] :: ls, last, (unlines_cons [] ls last).symm, ?_, hlast⟩
      simpa using hls
    · cases ls with
      | nil => exact ⟨[], c :: last, rfl, by simp, by simp [Ne.symm hc, hlast]⟩
      | cons l ls =>
        rw [List.forall_mem_cons] at hls
        refine ⟨(c :: l) :: ls, last, ?_, ?_, hlast⟩
        · rw [unlines_cons, unlines_cons, List.cons_append]
        · rw [List.forall_mem_cons]
          exact ⟨by simp [Ne.symm hc, hls.1], hls.2⟩

theorem splitOn_unlines {ls : List Text} (hls : ∀ l ∈ ls, '\n' ∉ l) (s : Text) :
    (unlines ls ++ s).splitOn '\n' = ls ++ s.splitOn '\n' := by
  induction ls with
  | nil => rfl
  | cons l ls ih =>
    rw [List.forall_mem_cons] at hls
    rw [unlines_cons, List.splitOn_append_cons_self_of_not_mem hls.1, ih hls.2, List.cons_append]

theorem count_unlines {ls : List Text} (hls : ∀ l ∈ ls, '\n' ∉ l) :
    (unlines ls).count '\n' = ls.length := by
  induction ls with
  | nil => rfl
  | cons l ls ih =>
    rw [List.forall_mem_cons] at hls
    have := unlines_cons l ls []
    rw [List.append_nil, List.append_nil] at this
    rw [this, List.count_append, List.count_eq_zero_of_not_mem hls.1, List.count_cons_self,
      ih hls.2, List.length_cons, Nat.zero_add]

/-- Behind lines a line starts. -/
theorem getLast?_unlines (ls : List Text) : ∀ c ∈ (unlines ls).getLast?, c = '\n' := by
  intro c hc
  rcases List.eq_nil_or_concat ls with rfl | ⟨ls, l, rfl⟩
  · cases hc
  · rw [List.concat_eq_append, unlines_concat, List.getLast?_concat] at hc
    exact (Option.some.inj hc).symm

/-- A text that is empty or ends with a newline is lines. -/
theorem exists_unlines {s : Text} (hs : ∀ c ∈ s.getLast?, c = '\n') :
    ∃ ls, s = unlines ls ∧ ∀ l ∈ ls, '\n' ∉ l := by
  obtain ⟨ls, last, rfl, hls, hlast⟩ := exists_lines s
  rcases List.eq_nil_or_concat last with rfl | ⟨last, c, rfl⟩
  · exact ⟨ls, List.append_nil _, hls⟩
  · rw [List.concat_eq_append] at hs hlast
    rw [← List.append_assoc, List.getLast?_concat] at hs
    obtain rfl := hs c rfl
    simp at hlast

/-! ## A newline behind the last line -/

/-- The text with a newline behind its last line, if that holds anything. -/
def closeLine (s : Text) : Text := if s = [] ∨ s.getLast? = some '\n' then s else s ++ ['\n']

theorem closeLine_of_ne {s : Text} (hne : s ≠ []) (hs : s.getLast? ≠ some '\n') : closeLine s = s ++ ['\n'] :=
  if_neg (not_or.2 ⟨hne, hs⟩)

theorem closeLine_inj {s r : Text} (hs : s.getLast? ≠ some '\n') (hr : r.getLast? ≠ some '\n')
    (h : closeLine s = closeLine r) : s = r := by
  rcases eq_or_ne s [] with rfl | hne <;> rcases eq_or_ne r [] with rfl | hne'
  · rfl
  · rw [closeLine_of_ne hne' hr] at h
    simp [closeLine] at h
  · rw [closeLine_of_ne hne hs] at h
    simp [closeLine] at h
  · rw [closeLine_of_ne hne hs, closeLine_of_ne hne' hr] at h
    exact List.append_cancel_right h

theorem closeLine_newline (s : Text) : closeLine ('\n' :: s) = '\n' :: closeLine s := by
  cases s with
  | nil => rfl
  | cons c s =>
    simp only [closeLine, List.getLast?_cons_cons, List.cons_ne_nil, false_or]
    split_ifs <;> rfl

/-- In front of a character that ends no line there is still something to be closed. -/
theorem closeLine_cons {c : Char} (hc : c ≠ '\n') (s : Text) :
    closeLine (c :: s) = c :: if s = [] then ['\n'] else closeLine s := by
  cases s with
  | nil => simp [closeLine, hc]
  | cons d s =>
    simp only [closeLine, List.getLast?_cons_cons, List.cons_ne_nil, false_or, if_false]
    split_ifs <;> rfl

/-! ## Reading within a line -/

/-- What can follow a line: nothing, or a newline and more. -/
inductive FollowsLine : Text → Prop
  | nil : FollowsLine []
  | newline (s : Text) : FollowsLine ('\n' :: s)

theorem FollowsLine.head?_eq_false {p : Char → Bool} {r : Text} (h : FollowsLine r) (hp : p '\n' = false) :
    ∀ c ∈ r.head?, p c = false := by
  rintro c hc
  cases h with
  | nil => cases hc
  | newline s => cases hc; exact hp

/-- A run within a line is one whatever follows the line. -/
theorem IsRun.append {p : Char → Bool} {l t e r : Text} (h : IsRun p l t e) (hp : p '\n' = false)
    (hr : FollowsLine r) : IsRun p (l ++ r) t (e ++ r) :=
  h.inFrontOf (.inr (hr.head?_eq_false hp))

theorem takeWhile_append {p : Char → Bool} (hp : p '\n' = false) {r : Text} (hr : FollowsLine r)
    (l : Text) : (l ++ r).takeWhile p = l.takeWhile p :=
  ((isRun_takeWhile p l).append hp hr).takeWhile_eq

theorem dropWhile_append {p : Char → Bool} (hp : p '\n' = false) {r : Text} (hr : FollowsLine r)
    (l : Text) : (l ++ r).dropWhile p = l.dropWhile p ++ r :=
  ((isRun_takeWhile p l).append hp hr).dropWhile_eq

theorem all_isLineChar {s : Text} (h : '\n' ∉ s) : ∀ c ∈ s, isLineChar c = true := by
  intro c hc
  have : c ≠ '\n' := fun heq => h (heq ▸ hc)
  simpa [isLineChar] using this

/-- Behind two dashes a comment takes the rest of the line. -/
theorem comment?_append_eq_some_iff {t : Text} (ht : '\n' ∉ t) {r : Text} (hr : FollowsLine r)
    {u : Text} : comment? (t ++ r) = some u ↔ ['-', '-'] <+: t ∧ u = r := by
  have hcomment : ∀ v, '\n' ∉ v → (v ++ r).dropWhile isLineChar = r := by
    intro v hv
    have hrun : IsRun isLineChar v v [] := ⟨by simp, all_isLineChar hv, by simp⟩
    exact (hrun.append rfl hr).dropWhile_eq
  constructor
  · intro h
    unfold comment? at h
    split at h
    · rename_i v hv
      match t with
      | [] => subst hv; cases hr
      | [c] =>
        obtain ⟨-, rfl⟩ := List.cons.inj hv
        cases hr
      | c :: d :: t =>
        obtain ⟨rfl, hv'⟩ := List.cons.inj hv
        obtain ⟨rfl, rfl⟩ := List.cons.inj hv'
        cases h
        refine ⟨⟨t, rfl⟩, hcomment t fun h => ht ?_⟩
        exact List.mem_cons_of_mem _ (List.mem_cons_of_mem _ h)
    · cases h
  · rintro ⟨⟨v, rfl⟩, rfl⟩
    exact congrArg some (hcomment v fun h => ht (List.mem_append_right _ h))

/-- What is read off a line, seen with `r` behind the line. -/
def inFrontOf {α : Type} (r : Text) : Except Fault (α × Text) → Except Fault (α × Text)
  | .ok (a, u) => .ok (a, u ++ r)
  | .error f => .error ⟨f.rest ++ r, f.error⟩

/-- The fault seen with `r` behind the text that it lies in. -/
def Fault.inFrontOf (r : Text) (f : Fault) : Fault := ⟨f.rest ++ r, f.error⟩

theorem inFrontOf_map {α β : Type} (r : Text) (f : α → β) (x : Except Fault (α × Text)) :
    inFrontOf r (x.map fun (a, u) => (f a, u)) = (inFrontOf r x).map fun (a, u) => (f a, u) := by
  cases x <;> rfl

theorem Quoted.read_append {q : Char} (hq : isQuote q = true) {s : Text} (hs : '\n' ∉ s) {r : Text}
    (hr : FollowsLine r) : read q (s ++ r) = inFrontOf r (read q s) := by
  have hn : '\n' ≠ q := by rintro rfl; exact absurd hq (by decide)
  fun_induction read q s with
  | case1 =>
    cases hr with
    | nil => rfl
    | newline s => rw [List.nil_append, read_cons (by decide), if_neg hn]; rfl
  | case2 =>
    cases hr with
    | nil => rfl
    | newline s => rfl
  | case3 c u hc => rw [List.cons_append, List.cons_append, read, hc]; rfl
  | case4 c u d hd ih =>
    rw [List.cons_append, List.cons_append, read, hd]
    simp only
    rw [ih fun h => hs (List.mem_cons_of_mem _ (List.mem_cons_of_mem _ h)), inFrontOf_map]
  | case5 u hb hb' =>
    rw [List.cons_append, read_cons (ne_backslash hb hb'), if_pos rfl]
    rfl
  | case6 c u hb hb' hq hl =>
    rw [List.cons_append, read_cons (ne_backslash hb hb'), if_neg hq, if_pos hl]
    rfl
  | case7 c u hb hb' hq hl ih =>
    rw [List.cons_append, read_cons (ne_backslash hb hb'), if_neg hq, if_neg hl,
      ih (fun h => hs (List.mem_cons_of_mem _ h)), inFrontOf_map]

end TextTemplate

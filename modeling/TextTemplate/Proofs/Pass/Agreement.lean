import TextTemplate.Proofs.Pass.Progress
import TextTemplate.Proofs.Template.WithinLine

/-!
# A pass produces what evaluation produces

A text is read first and evaluated then, while a pass evaluates each expansion as soon as it is read. Both come to the
same: an action of a pass ends with what the reading of the text at the cursor evaluates to, and leaves the rest that
the reader leaves. If the text is no template, what is complete before the fault is evaluated before the pass gets
there, so the first failure is the same too. What a failing action leaves at the cursor does not count here.

Main results:
* `settled_bind`: how two actions end, one after the other.
* `failure_after`: a failure behind parts that were complete.
* `settled_expansion`, `settled_name`, `settled_words`: expansions and words.
* `settled_line`, `settled_lines`: lines and whole texts.
-/

namespace TextTemplate

namespace Pass

variable {α β γ : Type} {p : Pass} {s : Text}

/-! ## How actions end -/

/-- How an action ends from the text at the cursor: a failure, or a result with what it leaves at the cursor. -/
def settled (x : Action α) (s : Text) : Option (Except Failure (α × Text)) :=
  (outcome x s).map fun y => y.1.map (·, y.2)

theorem settled_bind_error {x : Action α} {e : Failure} (f : α → Action β) (hx : settled x s = some (.error e)) :
    settled (x >>= f) s = some (.error e) := by
  obtain ⟨⟨result, r⟩, hout, hend⟩ := Option.map_eq_some_iff.1 hx
  cases result with
  | ok a => cases hend
  | error e' =>
    cases hend
    rw [settled, outcome_bind, hout]
    rfl

/-- An action goes on from where the one before it left the cursor, which is in the text before. -/
theorem settled_bind {x : Action α} {f : α → Action β} {y : Except Failure γ} {h : γ → α} {r : Text}
    {g : γ → Except Failure (β × Text)} {lies : Text → Prop} {P : α → Text → Prop}
    (hx : settled x s = some (y.map fun b => (h b, r))) (hkeeps : Keeps x s lies P)
    (hf : ∀ b, r <:+ s → settled (f (h b)) r = some (g b)) : settled (x >>= f) s = some (y.bind g) := by
  cases y with
  | error e => exact settled_bind_error f hx
  | ok b =>
    obtain ⟨result, r', hout, hr', -⟩ := hkeeps
    rw [settled, hout] at hx
    cases result with
    | error e => cases hx
    | ok a =>
      cases hx
      rw [settled, outcome_bind, hout]
      exact hf b hr'

theorem settled_map {x : Action α} {y : Except Failure (α × Text)} (f : α → β) (hx : settled x s = some y) :
    settled (f <$> x) s = some (y.map fun z => (f z.1, z.2)) := by
  obtain ⟨⟨result, r⟩, hout, rfl⟩ := Option.map_eq_some_iff.1 hx
  rw [settled, outcome_map, hout]
  cases result <;> rfl

theorem settled_bind_pure {x : Action α} {y : Except Failure (α × Text)} (f : α → β)
    (hx : settled x s = some y) : settled (x >>= fun a => pure (f a)) s = some (y.map fun z => (f z.1, z.2)) := by
  rw [bind_pure_comp]
  exact settled_map f hx

theorem settled_get_bind (f : Text → Action β) (s : Text) : settled (get >>= f) s = settled (f s) s := rfl

theorem settled_set_bind (r : Text) (f : Unit → Action β) (s : Text) :
    settled (set r >>= f) s = settled (f ()) r := rfl

theorem settled_takeRun_bind (q : Char → Bool) (f : Text → Action β) (s : Text) :
    settled (takeRun q >>= f) s = settled (f (s.takeWhile q)) (s.dropWhile q) := rfl

/-- A character that belongs to a run is taken with it. -/
theorem settled_some_takeRun {q : Char → Bool} {c : Char} (hc : q c = true) (r : Text) :
    settled (some <$> takeRun q) (c :: r) = some (.ok (some (c :: r.takeWhile q), r.dropWhile q)) := by
  rw [map_eq_pure_bind, settled_takeRun_bind, List.takeWhile_cons, List.dropWhile_cons, if_pos hc, if_pos hc]
  rfl

theorem settled_expect_bind (c : Char) (error : SyntaxError) (f : Unit → Action β) (r : Text) :
    settled (p.expect c error >>= f) (c :: r) = settled (f ()) r := by
  have hexpect : outcome (p.expect c error) (c :: r) = some (.ok (), r) := by
    show outcome (if c = c then set r else p.fault error) (c :: r) = _
    rw [if_pos rfl]
    rfl
  rw [settled, outcome_bind, hexpect]
  rfl

theorem settled_locate_bind {rest : Text} (hrest : rest <:+ p.whole) (f : Position → Action β) (s : Text) :
    settled (p.locate rest >>= f) s = settled (f (.before p.whole rest)) s := by
  rw [settled, outcome_bind, outcome_locate hrest]
  rfl

theorem settled_fault (hs : s <:+ p.whole) (error : SyntaxError) :
    settled (p.fault error : Action α) s = some (.error (.here ⟨s, .syntaxError error⟩)) := by
  rw [settled, outcome_fault hs]
  rfl

theorem settled_expect_of_ne {c : Char} (hs : s <:+ p.whole) (hc : s.head? ≠ some c) (error : SyntaxError) :
    settled (p.expect c error) s = some (.error (.here ⟨s, .syntaxError error⟩)) := by
  cases s with
  | nil => exact settled_fault hs error
  | cons d r =>
    show settled (if d = c then set r else p.fault error) (d :: r) = _
    rw [if_neg fun h => hc (congrArg some h)]
    exact settled_fault hs error

/-! ## Inquiries -/

theorem except_map_map {ε : Type} (x : Except ε α) (f : α → β) (g : β → γ) :
    (x.map f).map g = x.map fun a => g (f a) := by
  cases x <;> rfl

/-- What references and directives stand for in a pass. -/
def meaning (p : Pass) : Semantics := p.context.semantics (p.context.within p.expander)

/-- How an inquiry ends with the files of a pass. -/
def result (p : Pass) (x : Inquiry Failure α) : Except Failure α := (x.run p.files).result

theorem result_bind (x : Inquiry Failure α) (f : α → Inquiry Failure β) :
    p.result (x >>= f) = (p.result x).bind fun a => p.result (f a) := by
  show ((x.bind f).run p.files).result = _
  rw [Inquiry.run_bind, result]
  cases (x.run p.files).result <;> rfl

theorem result_bind_map (x : Inquiry Failure α) (f : α → Inquiry Failure β) (g : β → γ) :
    (p.result (x >>= f)).map g = (p.result x).bind fun a => (p.result (f a)).map g := by
  rw [result_bind]
  cases p.result x <;> rfl

theorem result_map (f : α → β) (x : Inquiry Failure α) : p.result (f <$> x) = (p.result x).map f := by
  show p.result (x >>= fun a => pure (f a)) = _
  rw [result_bind]
  cases p.result x <;> rfl

variable {start : Text}

/-- An action that ends as an inquiry does whose own failures lie at a place of the text. -/
theorem settled_answer {x : Inquiry Failure Text} (hstart : start <:+ p.whole)
    (hx : ∀ defect, p.result x = .error (.here defect) → defect.rest = start) (s : Text) :
    settled (p.answer x) s = some ((p.result x).map (·, s)) := by
  unfold answer
  split
  · rename_i t ht
    rw [result, ht]
    rfl
  · rename_i defect hdefect
    rw [settled, hx defect hdefect, outcome_refuse hstart, result, hdefect, ← hx defect hdefect]
    rfl
  · rename_i error herror
    rw [result, herror]
    rfl

/-- Behind the words of a directive its command is run. -/
theorem settled_command (hstart : start <:+ p.whole) (words : List Text) (s : Text) :
    settled (if words.isEmpty = true then pure [] else do
      let _ ← p.locate start
      p.answer (p.context.command (p.context.within p.expander) start words)) s =
    some ((p.result (p.meaning.directive start words)).map (·, s)) := by
  cases words with
  | nil => rfl
  | cons word words =>
    show settled (p.locate start >>= _) s = _
    rw [settled_locate_bind hstart]
    exact settled_answer hstart (fun _ => rest_of_command) s

/-- Behind the closing brace of a reference its name is looked up. -/
theorem settled_lookUp (hstart : start <:+ p.whole) (name s : Text) :
    settled (p.expect '}' .noVariableEnd >>= fun _ => p.answer (p.context.lookUp start name)) ('}' :: s) =
      some ((p.result (p.meaning.reference start name)).map (·, s)) := by
  rw [settled_expect_bind]
  exact settled_answer hstart (fun _ => rest_of_lookUp) s

/-! ## Readings -/

/-- How a pass fails at a text that is no template. -/
def failure (p : Pass) (t : Truncation) : Failure :=
  match p.result (evalParts p.meaning t.before) with
  | .ok _ => .here t.fault.defect
  | .error e => e

theorem failure_ofFault (f : Fault) : p.failure (.ofFault f) = .here f.defect := by
  rw [failure, Truncation.ofFault, evalParts]
  rfl

theorem result_evalParts_nil : p.result (evalParts p.meaning []) = .ok [] := by
  rw [evalParts]
  rfl

/-- A part comes in front of the parts behind it. -/
theorem result_evalParts_cons (part : Part) (ps : List Part) (r : Text) :
    (p.result (evalParts p.meaning (part :: ps))).map (·, r) =
      (p.result (part.eval p.meaning)).bind fun t =>
        ((p.result (evalParts p.meaning ps)).map (·, r)).map fun z => (t ++ z.1, z.2) := by
  have hmap : ∀ t : Text, p.result (evalParts p.meaning ps >>= fun u => pure (t ++ u)) =
      (p.result (evalParts p.meaning ps)).map (t ++ ·) := fun t => result_map _ _
  rw [evalParts, result_bind_map]
  simp only [hmap, except_map_map]

theorem result_truncation (t : Truncation) : p.result (t.eval p.meaning) = .error (p.failure t) := by
  rw [Truncation.eval, result_bind, failure]
  cases p.result (evalParts p.meaning t.before) <;> rfl

/-- What was complete further in front comes first. -/
theorem failure_after (t : Truncation) (ps : List Part) :
    (.error (p.failure (t.after ps)) : Except Failure α) =
      (p.result (evalParts p.meaning ps)).bind fun _ => .error (p.failure t) := by
  have h := result_truncation (p := p) (t.after ps)
  rw [Truncation.eval_after] at h
  change p.result (evalParts p.meaning ps >>= fun _ => t.eval p.meaning) = _ at h
  rw [result_bind, result_truncation] at h
  cases hparts : p.result (evalParts p.meaning ps) <;>
  · rw [hparts] at h
    exact congrArg Except.error (Except.error.inj h).symm

theorem failure_after_part (t : Truncation) (part : Part) :
    (.error (p.failure (t.after [part])) : Except Failure α) =
      (p.result (part.eval p.meaning)).bind fun _ => .error (p.failure t) := by
  have hpart : p.result (evalParts p.meaning [part]) = (p.result (part.eval p.meaning)).map (· ++ []) := by
    rw [evalParts, evalParts]
    exact result_map _ _
  rw [failure_after, hpart]
  cases p.result (part.eval p.meaning) <;> rfl

/-- A fault counts when everything before it has been evaluated. -/
theorem failure_behind (ps : List Part) (f : Fault) :
    (.error (p.failure ⟨ps, f⟩) : Except Failure α) =
      (p.result (evalParts p.meaning ps)).bind fun _ => .error (.here f.defect) := by
  rw [← failure_ofFault, ← failure_after, Truncation.after, Truncation.ofFault, List.append_nil]

/-- What comes of what was read, when it is evaluated. -/
def evaluated {n : Nat} (p : Pass) (eval : α → Inquiry Failure β) :
    Except Truncation (Reading α n) → Except Failure (β × Text)
  | .ok reading => (p.result (eval reading.value)).map (·, reading.rest)
  | .error t => .error (p.failure t)

/-- What comes of what was read, if there was something, and of nothing. -/
def evaluatedOr {n : Nat} (p : Pass) (eval : α → Inquiry Failure β) (absent : Except Failure (β × Text)) :
    Except Truncation (Option (Reading α n)) → Except Failure (β × Text)
  | .ok none => absent
  | .ok (some reading) => (p.result (eval reading.value)).map (·, reading.rest)
  | .error t => .error (p.failure t)

/-- What comes of nothing where a name may have ended: it is missed if the name has no part. -/
def absent (missing : SyntaxError) (parts : Nat) (s : Text) (a : α) : Except Failure (α × Text) :=
  if parts = 0 then .error (.here ⟨s, .syntaxError missing⟩) else .ok (a, s)

/-! ## Expansions and words -/

/-- Behind a word a closing parenthesis ends the directive. -/
theorem settled_words_close (n : Nat) (separated : Bool) (r : Text) (hn : 1 < n) :
    settled (p.words n separated) (')' :: r) = some (.ok ([], r)) := by
  obtain ⟨m, rfl⟩ := Nat.exists_eq_add_of_le' hn
  rw [words, wordTurn]
  rfl

/-- Anything else must be separated from the word. -/
theorem settled_words_false (n : Nat) (hs : s <:+ p.whole) (hclose : s.head? ≠ some ')') (hn : 1 < n) :
    settled (p.words n false) s = some (.error (.here ⟨s, .syntaxError .noDirectiveEnd⟩)) := by
  obtain ⟨m, rfl⟩ := Nat.exists_eq_add_of_le' hn
  rw [words, wordTurn]
  refine settled_bind_error _ ?_
  rw [settled_get_bind]
  split
  · exact absurd rfl hclose
  · exact settled_fault hs _

/-- A part of a name that is no expansion stands for itself. -/
theorem settled_nameTurn_of_ne (n : Nat) (hs : s <:+ p.whole) (hdollar : s.head? ≠ some '$') (missing : SyntaxError)
    (parts : Nat) : settled (p.nameTurn (n + 1) missing parts) s =
      some (p.evaluatedOr (fun part => some <$> part.eval p.meaning) (absent missing parts s none) (readPart s)) := by
  have habsent : settled (if parts = 0 then p.fault missing else pure none) s =
      some (absent missing parts s (none : Option Text)) := by
    unfold absent
    split_ifs
    · exact settled_fault hs missing
    · rfl
  have htext : ∀ t u (h : u.length < s.length), some (.ok (some t, u)) =
      some (p.evaluatedOr (fun part => some <$> part.eval p.meaning) (absent missing parts s none)
        (.ok (some (⟨.text t, u, h⟩ : Reading Part s.length)))) := by
    intro t u h
    simp only [evaluatedOr, Part.eval]
    rfl
  rw [nameTurn, settled_get_bind]
  unfold readPart
  cases s with
  | nil => exact habsent
  | cons c r =>
    have hc : c ≠ '$' := fun h => hdollar (congrArg some h)
    simp only
    rw [if_neg hc, if_neg hc]
    by_cases hquote : isQuote c
    · rw [if_pos hquote, if_pos hquote]
      split
      · rename_i t u hread
        split
        · rename_i f hread'
          cases hread.symm.trans hread'
        · rename_i t' u' hread'
          cases hread.symm.trans hread'
          exact htext t u _
      · rename_i f hread
        have hf : f.rest <:+ c :: r := suffix_cons_of c (Quoted.fault_of_read hread).1
        split
        · rename_i f' hread'
          cases hread.symm.trans hread'
          rw [settled_set_bind, settled_fault (hf.trans hs), evaluatedOr, failure_ofFault]
          rfl
        · rename_i t' u' hread'
          cases hread.symm.trans hread'
    rw [if_neg hquote, if_neg hquote]
    by_cases hword : isBarewordChar c
    · rw [if_pos hword, if_pos hword, ← htext]
      exact settled_some_takeRun hword r
    · rw [if_neg hword, if_neg hword]
      exact habsent

theorem readWord_close (r : Text) : readWord (')' :: r) = .ok none := by
  unfold readWord readPart
  rfl

-- The induction is the one by which the actions keep the cursor, on how many calls may be nested.
mutual

theorem settled_expansion (n : Nat) (s : Text) (hs : '$' :: s <:+ p.whole) (hn : 5 * (s.length + 1) < n) :
    settled (p.expansion n) ('$' :: s) = some (p.evaluated (Expansion.eval p.meaning) (readExpansion s)) := by
  obtain ⟨m, hm⟩ := Nat.exists_eq_succ_of_ne_zero (Nat.ne_zero_of_lt hn)
  have hrest : s <:+ p.whole := (List.suffix_cons _ _).trans hs
  rw [hm, expansion, settled_get_bind, settled_expect_bind, settled_get_bind]
  split
  · rename_i r
    rw [List.length_cons] at hn
    exact settled_directive m r hs (by omega)
  · rename_i r
    rw [List.length_cons] at hn
    exact settled_reference m r hs (by omega)
  · rw [readExpansion]
    rfl
  · rw [readExpansion]
    rfl
  · rw [readExpansion]
    rfl
  · rw [readExpansion, settled_fault hrest, evaluated, failure_ofFault]
    · rfl
    all_goals assumption
termination_by n

theorem settled_directive (n : Nat) (r : Text) (hs : '$' :: '(' :: r <:+ p.whole) (hn : 5 * (r.length + 1) < n) :
    settled (p.directive n ('$' :: '(' :: r)) ('(' :: r) =
      some (p.evaluated (Expansion.eval p.meaning) (readExpansion ('(' :: r))) := by
  obtain ⟨m, hm⟩ := Nat.exists_eq_succ_of_ne_zero (Nat.ne_zero_of_lt hn)
  have hlen := length_dropWhile_le isGap r
  have hr : r.dropWhile isGap <:+ p.whole := (suffix_cons_of _ (suffix_cons_of _ (List.dropWhile_suffix _))).trans hs
  have ih := settled_words m (r.dropWhile isGap) hr (by omega)
  rw [hm, directive, settled_expect_bind, settled_takeRun_bind, readExpansion]
  cases hread : readWords (r.dropWhile isGap) with
  | error t =>
    rw [hread] at ih
    exact settled_bind_error _ ih
  | ok reading =>
    obtain ⟨words, u, hu⟩ := reading
    rw [hread] at ih
    rw [settled_bind ih (keeps_words m true _ hr (by omega)) fun ws _ => settled_command hs ws u]
    simp only [evaluated, Expansion.eval, result_bind_map]
termination_by n

theorem settled_reference (n : Nat) (r : Text) (hs : '$' :: '{' :: r <:+ p.whole) (hn : 5 * (r.length + 1) < n) :
    settled (p.reference n ('$' :: '{' :: r)) ('{' :: r) =
      some (p.evaluated (Expansion.eval p.meaning) (readExpansion ('{' :: r))) := by
  obtain ⟨m, hm⟩ := Nat.exists_eq_succ_of_ne_zero (Nat.ne_zero_of_lt hn)
  have hr : r <:+ p.whole := (suffix_cons_of _ (List.suffix_cons _ _)).trans hs
  have ih := settled_name m .noVariableName 0 r hr (by omega)
  have hkeeps := keeps_name m .noVariableName 0 r hr (by omega)
  rw [hm, reference, settled_expect_bind, readExpansion]
  cases hread : readWord r with
  | error t =>
    rw [hread] at ih
    exact settled_bind_error _ ih
  | ok read =>
    rw [hread] at ih
    cases read with
    | none =>
      rw [settled_bind_error _ ih, evaluated, failure_ofFault]
      rfl
    | some reading =>
      obtain ⟨name, u, hu⟩ := reading
      by_cases hclose : ∃ v, u = '}' :: v
      · obtain ⟨v, rfl⟩ := hclose
        rw [settled_bind ih hkeeps fun t _ => settled_lookUp hs t v]
        simp only [if_true, evaluated, Expansion.eval, result_bind_map]
      · have hhead : u.head? ≠ some '}' := fun h => hclose (List.head?_eq_some_iff.1 h)
        rw [settled_bind ih hkeeps fun t h => settled_bind_error _ (settled_expect_of_ne (h.trans hr) hhead _)]
        cases u with
        | nil => exact congrArg some (failure_behind name ⟨[], .noVariableEnd⟩).symm
        | cons c v =>
          have hc : c ≠ '}' := fun hc => hclose ⟨v, by rw [hc]⟩
          simp only [if_neg hc]
          exact congrArg some (failure_behind name ⟨c :: v, .noVariableEnd⟩).symm
termination_by n

theorem settled_nameTurn (n : Nat) (missing : SyntaxError) (parts : Nat) (s : Text) (hs : s <:+ p.whole)
    (hn : 5 * s.length + 1 < n) : settled (p.nameTurn n missing parts) s =
      some (p.evaluatedOr (fun part => some <$> part.eval p.meaning) (absent missing parts s none) (readPart s)) := by
  obtain ⟨m, hm⟩ := Nat.exists_eq_succ_of_ne_zero (Nat.ne_zero_of_lt hn)
  by_cases hdollar : s.head? = some '$'
  · obtain ⟨r, rfl⟩ := List.head?_eq_some_iff.1 hdollar
    rw [List.length_cons] at hn
    rw [hm, nameTurn, settled_get_bind]
    unfold readPart
    simp only [if_true]
    rw [if_neg (by decide), settled_map some (settled_expansion m r hs (by omega))]
    cases readExpansion r with
    | error t => rfl
    | ok reading => simp only [evaluated, evaluatedOr, result_map, Part.eval, except_map_map]
  · rw [hm]
    exact settled_nameTurn_of_ne m hs hdollar missing parts
termination_by n

theorem settled_name (n : Nat) (missing : SyntaxError) (parts : Nat) (s : Text) (hs : s <:+ p.whole)
    (hn : 5 * s.length + 2 < n) : settled (p.name n missing parts) s =
      some (p.evaluatedOr (evalParts p.meaning) (absent missing parts s []) (readWord s)) := by
  obtain ⟨m, hm⟩ := Nat.exists_eq_succ_of_ne_zero (Nat.ne_zero_of_lt hn)
  have ih := settled_nameTurn m missing parts s hs (by omega)
  have hkeeps := keeps_nameTurn m missing parts s hs (by omega)
  rw [hm, name]
  unfold readWord
  cases hread : readPart s with
  | error t =>
    rw [hread] at ih
    exact settled_bind_error _ ih
  | ok read =>
    rw [hread] at ih
    cases read with
    | none =>
      simp only [evaluatedOr, absent] at ih ⊢
      split_ifs at ih ⊢
      · exact settled_bind_error _ ih
      · exact settled_bind (y := .ok ()) (h := fun _ => none) (g := fun _ => .ok ([], s)) ih hkeeps fun _ _ => rfl
    | some reading =>
      obtain ⟨part, r, hr⟩ := reading
      simp only [evaluatedOr, result_map, except_map_map] at ih
      have hrest : ∀ t, r <:+ s →
          settled (p.name m missing (parts + 1) >>= fun u => pure (t ++ u)) r =
            some ((p.evaluatedOr (evalParts p.meaning) (absent missing (parts + 1) r []) (readWord r)).map
              fun z => (t ++ z.1, z.2)) := by
        intro t hrs
        exact settled_bind_pure (t ++ ·) (settled_name m missing (parts + 1) r (hrs.trans hs) (by omega))
      rw [settled_bind ih hkeeps hrest]
      simp only
      cases readWord r with
      | error t =>
        rw [evaluatedOr, evaluatedOr, failure_after_part]
        rfl
      | ok read =>
        cases read with
        | none =>
          rw [evaluatedOr, evaluatedOr, result_evalParts_cons, result_evalParts_nil]
          rfl
        | some reading => rw [evaluatedOr, evaluatedOr, result_evalParts_cons]
termination_by n

theorem settled_wordTurn (n : Nat) (s : Text) (hs : s <:+ p.whole) (hclose : s.head? ≠ some ')')
    (hn : 5 * s.length + 3 < n) : settled (p.wordTurn n true) s =
      some (match readWord s with
        | .error t => .error (p.failure t)
        | .ok none => .error (.here ⟨s, .syntaxError .noDirectiveWord⟩)
        | .ok (some reading) => (p.result (evalParts p.meaning reading.value)).map fun t =>
          (some (t, !(reading.rest.takeWhile isGap).isEmpty), reading.rest.dropWhile isGap)) := by
  obtain ⟨m, hm⟩ := Nat.exists_eq_succ_of_ne_zero (Nat.ne_zero_of_lt hn)
  have ih := settled_name m .noDirectiveWord 0 s hs (by omega)
  have hkeeps := keeps_name m .noDirectiveWord 0 s hs (by omega)
  rw [hm, wordTurn, settled_get_bind]
  split
  · exact absurd rfl hclose
  · rw [if_pos rfl]
    cases hread : readWord s with
    | error t =>
      rw [hread] at ih
      exact settled_bind_error _ ih
    | ok read =>
      rw [hread] at ih
      cases read with
      | none => exact settled_bind_error _ ih
      | some reading =>
        rw [settled_bind (g := fun t => .ok (some (t, !(reading.rest.takeWhile isGap).isEmpty),
          reading.rest.dropWhile isGap)) ih hkeeps fun _ _ => rfl]
        simp only
        cases p.result (evalParts p.meaning reading.value) <;> rfl
termination_by n

theorem settled_words (n : Nat) (s : Text) (hs : s <:+ p.whole) (hn : 5 * s.length + 4 < n) :
    settled (p.words n true) s = some (p.evaluated (evalWords p.meaning) (readWords s)) := by
  by_cases hclose : s.head? = some ')'
  · obtain ⟨r, rfl⟩ := List.head?_eq_some_iff.1 hclose
    rw [settled_words_close n true r (by omega)]
    unfold readWords
    simp only [readWord_close, evaluated, evalWords]
    rfl
  obtain ⟨m, hm⟩ := Nat.exists_eq_succ_of_ne_zero (Nat.ne_zero_of_lt hn)
  have ih := settled_wordTurn m s hs hclose (by omega)
  have hkeeps := keeps_wordTurn m true s hs (by omega)
  unfold readWords
  cases hread : readWord s with
  | error t =>
    rw [hread] at ih
    rw [hm, words]
    exact settled_bind_error _ ih
  | ok read =>
    rw [hread] at ih
    cases read with
    | none =>
      rw [hm, words, settled_bind_error _ ih]
      simp only
      split
      · exact absurd rfl hclose
      · rw [evaluated, failure_ofFault]
        rfl
    | some reading =>
      obtain ⟨w, r, hr⟩ := reading
      simp only at ih ⊢
      have hnext : ∀ y, (r.dropWhile isGap <:+ s →
            settled (p.words m !(r.takeWhile isGap).isEmpty) (r.dropWhile isGap) = some y) →
          settled (p.words n true) s =
            some ((p.result (evalParts p.meaning w)).bind fun t => y.map fun z => (t :: z.1, z.2)) := by
        intro y hy
        rw [hm, words]
        exact settled_bind ih hkeeps fun t h => settled_bind_pure (t :: ·) (hy h)
      cases r with
      | nil =>
        rw [hnext _ fun h => settled_words_false m (h.trans hs) nofun (by omega)]
        exact congrArg some (failure_behind w ⟨[], .noDirectiveEnd⟩).symm
      | cons c u =>
        by_cases hc : c = ')'
        · subst hc
          rw [hnext _ fun _ => settled_words_close m false u (by omega)]
          simp only [if_true, evaluated, evalWords, result_bind_map]
          rfl
        simp only [if_neg hc]
        by_cases hgap : isGap c
        · have hlen := length_dropWhile_le isGap u
          rw [List.length_cons] at hr
          have ihrest := fun h : u.dropWhile isGap <:+ s => settled_words m (u.dropWhile isGap) (h.trans hs) (by omega)
          rw [List.takeWhile_cons, List.dropWhile_cons, if_pos hgap, if_pos hgap] at hnext
          rw [hnext _ ihrest, if_pos hgap]
          cases readWords (u.dropWhile isGap) with
          | error t => exact congrArg some (failure_after t w).symm
          | ok reading =>
            simp only [evaluated, evalWords, result_bind_map]
            cases p.result (evalParts p.meaning w) with
            | error e => rfl
            | ok t => cases p.result (evalWords p.meaning reading.value) <;> rfl
        · rw [List.takeWhile_cons, List.dropWhile_cons, if_neg hgap, if_neg hgap] at hnext
          have hhead : (c :: u).head? ≠ some ')' := fun h => hc (Option.some.inj h)
          rw [hnext _ fun h => settled_words_false m (h.trans hs) hhead (by omega), if_neg hgap]
          exact congrArg some (failure_behind w ⟨c :: u, .noDirectiveEnd⟩).symm
termination_by n

end

/-! ## Lines -/

theorem settled_pieces (n : Nat) (s : Text) (hs : s <:+ p.whole) (hn : 5 * s.length + 1 < n) :
    settled (p.pieces n) s = some (p.evaluated (evalParts p.meaning) (readLineParts s)) := by
  obtain ⟨m, hm⟩ := Nat.exists_eq_succ_of_ne_zero (Nat.ne_zero_of_lt hn)
  have hkeeps := keeps_pieceTurn m s hs (by omega)
  have hnext : ∀ (part : Part) (u : Text), u.length < s.length →
      settled (p.pieceTurn m) s = some ((p.result (part.eval p.meaning)).map fun t => (some t, u)) →
      settled (p.pieces n) s = some ((p.result (part.eval p.meaning)).bind fun t =>
        (p.evaluated (evalParts p.meaning) (readLineParts u)).map fun z => (t ++ z.1, z.2)) := by
    intro part u hlt hturn
    rw [hm, pieces]
    exact settled_bind hturn hkeeps fun t h =>
      settled_bind_pure (t ++ ·) (settled_pieces m u (h.trans hs) (by omega))
  cases s with
  | nil =>
    rw [hm, pieces, readLineParts, evaluated, result_evalParts_nil]
    rfl
  | cons c r =>
    by_cases hnewline : c = '\n'
    · subst hnewline
      rw [hm, pieces, readLineParts]
      simp only [if_true, evaluated, result_evalParts_nil]
      rfl
    by_cases hdollar : c = '$'
    · subst hdollar
      rw [List.length_cons] at hn
      have hturn : settled (p.pieceTurn m) ('$' :: r) =
          some ((p.evaluated (Expansion.eval p.meaning) (readExpansion r)).map fun z => (some z.1, z.2)) :=
        settled_map some (settled_expansion m r hs (by omega))
      unfold readLineParts
      simp only [if_neg hnewline, if_true]
      cases hread : readExpansion r with
      | error t =>
        rw [hread] at hturn
        rw [hm, pieces]
        exact settled_bind_error _ hturn
      | ok reading =>
        obtain ⟨e, u, hu⟩ := reading
        rw [hread, evaluated, except_map_map] at hturn
        rw [hnext (.expansion e) u (by simpa using hu) hturn]
        simp only
        cases readLineParts u with
        | error t =>
          rw [evaluated, evaluated, failure_after_part]
          rfl
        | ok reading => rw [evaluated, evaluated, result_evalParts_cons]
    · have hliteral : isLiteralChar c = true := by simp [isLiteralChar, hnewline, hdollar]
      have hturn : settled (p.pieceTurn m) (c :: r) =
          some (.ok (some (c :: r.takeWhile isLiteralChar), r.dropWhile isLiteralChar)) := by
        rw [pieceTurn, settled_get_bind]
        simp only [if_neg hnewline, if_neg hdollar]
        exact settled_some_takeRun hliteral r
      have hlt := Nat.lt_succ_of_le (length_dropWhile_le isLiteralChar r)
      have htext : p.result (Part.eval p.meaning (.text (c :: r.takeWhile isLiteralChar))) =
          .ok (c :: r.takeWhile isLiteralChar) := by
        rw [Part.eval]
        rfl
      unfold readLineParts
      simp only [if_neg hnewline, if_neg hdollar]
      rw [hnext (.text (c :: r.takeWhile isLiteralChar)) (r.dropWhile isLiteralChar) hlt (by rw [hturn, htext]; rfl)]
      cases readLineParts (r.dropWhile isLiteralChar) with
      | error t =>
        rw [evaluated, evaluated, htext]
        rfl
      | ok reading => rw [evaluated, evaluated, result_evalParts_cons]
termination_by n

theorem settled_line (n : Nat) (s : Text) (hs : s <:+ p.whole) (hn : 5 * s.length + 1 < n) :
    settled (p.line n) s = some (p.evaluated (Line.eval p.meaning) (readLine s)) := by
  rw [line, settled_takeRun_bind, settled_get_bind]
  have hrest : s.dropWhile isBlank <:+ p.whole := (List.dropWhile_suffix _).trans hs
  have hlen := length_dropWhile_le isBlank s
  cases hskip : skipCommentLine? (s.dropWhile isBlank) with
  | some r =>
    obtain ⟨k, hread⟩ := readLine_of_comment hskip
    rw [hread, evaluated, Line.eval]
    rfl
  | none =>
    have ih := settled_pieces n (s.dropWhile isBlank) hrest (by omega)
    cases hread : readLineParts (s.dropWhile isBlank) with
    | error t =>
      rw [hread] at ih
      rw [readLine_of_error hskip hread]
      exact settled_bind_error _ ih
    | ok reading =>
      rw [hread] at ih
      obtain ⟨k, hline⟩ := readLine_of_ok hskip hread
      rw [hline]
      refine (settled_bind_pure (fun u => s.takeWhile isBlank ++ u ++ ['\n']) ih).trans ?_
      rw [evaluated, evaluated, Line.eval, result_bind_map, except_map_map]
      cases p.result (evalParts p.meaning reading.value) <;> rfl

theorem settled_lines (n : Nat) (s : Text) (hs : s <:+ p.whole) (hn : 5 * s.length + 2 < n) :
    settled (p.lines n) s = some ((p.result (evalText p.meaning s)).map (·, [])) := by
  obtain ⟨m, hm⟩ := Nat.exists_eq_succ_of_ne_zero (Nat.ne_zero_of_lt hn)
  have hkeeps := keeps_lineTurn m s hs (by omega)
  have ih := settled_line m s hs (by omega)
  rw [hm, lines]
  by_cases hempty : s = []
  · subst hempty
    rw [evalText_nil]
    rfl
  have hturn : settled (p.lineTurn m) s =
      some ((p.evaluated (Line.eval p.meaning) (readLine s)).map fun z => (some z.1, z.2)) := by
    rw [lineTurn, settled_get_bind, if_neg (by simpa using hempty)]
    exact settled_map some ih
  cases hread : readLine s with
  | error t =>
    rw [hread] at hturn
    rw [settled_bind_error _ hturn, evalText_of_readLine_error hempty hread, result_truncation]
    rfl
  | ok reading =>
    have hlt : reading.rest.length < s.length := by
      have := reading.length_lt
      have := List.length_pos_iff.2 hempty
      omega
    rw [hread, evaluated, except_map_map] at hturn
    have hlines : ∀ t, reading.rest <:+ s →
        settled (p.lines m >>= fun u => pure (t ++ u)) reading.rest = _ :=
      fun t h => settled_bind_pure (t ++ ·) (settled_lines m reading.rest (h.trans hs) (by omega))
    have hsplit : p.result (evalText p.meaning s) = (p.result (reading.value.eval p.meaning)).bind fun t =>
        (p.result (evalText p.meaning reading.rest)).map (t ++ ·) := by
      rw [evalText_of_readLine hempty hread]
      exact (result_bind _ _).trans (congrArg _ (funext fun t => result_map (t ++ ·) _))
    rw [settled_bind hturn hkeeps hlines, hsplit]
    cases p.result (reading.value.eval p.meaning) with
    | error e => rfl
    | ok t => cases p.result (evalText p.meaning reading.rest) <;> rfl
termination_by n

end Pass

end TextTemplate

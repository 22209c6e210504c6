import TextTemplate.Proofs.Diagnostic
import TextTemplate.Proofs.Inclusion.Visits
import TextTemplate.Proofs.Pass.Basic

/-!
# A pass goes forwards and comes to an end

From the text at the cursor each action of a pass ends with its cursor in that text: with a result, before which most
actions have taken something, or with a failure, which lies in the text or is none of the text itself. So each turn of
a loop that is followed by another leaves less text, and the loops come to an end. The rules for `Keeps` say how this is
put together; the actions are then gone through one by one, with as many nested calls as the text has room for.

Main results:
* `Position.locate?_append`: the place of a rest of the text can be told.
* `Keeps.bind`: an action goes on from where the one before it left the cursor.
* `keeps_expansion`, `keeps_name`, `keeps_line`, `keeps_lines`: what actions keep.
* `keeps_nameTurn`, `keeps_wordTurn`, `keeps_pieceTurn`, `keeps_lineTurn`: what the turns of loops keep.
-/

namespace TextTemplate

/-! ## Places counted in bytes -/

theorem Text.front?_append (pre post : Text) : Text.front? (pre ++ post) (Text.utf8Length pre) = some pre := by
  induction pre with
  | nil => cases post <;> rfl
  | cons c pre ih =>
    have hsize := c.utf8Size_pos
    obtain ⟨n, hn⟩ : ∃ n, Text.utf8Length (c :: pre) = n + 1 :=
      Nat.exists_eq_succ_of_ne_zero (by simp only [utf8Length, List.foldr_cons]; omega)
    have hrest : n + 1 - c.utf8Size = utf8Length pre := by
      rw [← hn]
      exact Nat.add_sub_cancel_left _ _
    have hle : c.utf8Size ≤ n + 1 := by
      rw [← hn]
      exact Nat.le_add_right _ _
    rw [hn, List.cons_append, front?, if_pos hle, hrest, ih]
    rfl

theorem Position.locate?_append (pre post : Text) :
    locate? (pre ++ post) post = some (before (pre ++ post) post) := by
  have hbytes : (pre ++ post).utf8Length - post.utf8Length = pre.utf8Length := by
    rw [Text.utf8Length_append, Nat.add_sub_cancel]
  rw [locate?, hbytes, Text.front?_append, before_append]
  rfl

/-! ## Places of failures -/

/-- If a failure is one of the text itself, it lies at one of the places. -/
def Failure.LiesIn (places : Text → Prop) : Failure → Prop
  | .here defect => places defect.rest
  | .elsewhere _ => True

theorem Failure.LiesIn.mono {places places' : Text → Prop} {failure : Failure} (h : failure.LiesIn places)
    (hplaces : ∀ u, places u → places' u) : failure.LiesIn places' := by
  cases failure with
  | here defect => exact hplaces _ h
  | elsewhere error => trivial

namespace Pass

variable {α β : Type} {p : Pass}

/-! ## Outcomes -/

/-- What an action comes to from the text at the cursor: a result or a failure, and what it leaves at the cursor. -/
def outcome (x : Action α) (s : Text) : Option (Except Failure α × Text) := x.run.run s

theorem outcome_bind (x : Action α) (f : α → Action β) (s : Text) :
    outcome (x >>= f) s =
      match outcome x s with
      | none => none
      | some (.ok a, r) => outcome (f a) r
      | some (.error e, r) => some (.error e, r) := by
  simp only [outcome, ExceptT.run_bind, StateT.run_bind]
  cases x.run.run s with
  | none => rfl
  | some y =>
    obtain ⟨result, r⟩ := y
    cases result <;> rfl

theorem outcome_map (x : Action α) (f : α → β) (s : Text) :
    outcome (f <$> x) s = (outcome x s).map fun y => (y.1.map f, y.2) := by
  simp only [outcome, ExceptT.run_map, StateT.run_map]
  cases x.run.run s with
  | none => rfl
  | some y =>
    obtain ⟨result, r⟩ := y
    cases result <;> rfl

theorem outcome_locate {rest : Text} (h : rest <:+ p.whole) (s : Text) :
    outcome (p.locate rest) s = some (.ok (.before p.whole rest), s) := by
  obtain ⟨pre, hpre⟩ := h
  rw [locate, ← hpre, Position.locate?_append]
  rfl

theorem outcome_refuse {rest : Text} (h : rest <:+ p.whole) (cause : Cause) (s : Text) :
    outcome (p.refuse rest cause : Action α) s = some (.error (.here ⟨rest, cause⟩), s) := by
  rw [refuse, outcome_bind, outcome_locate h]
  rfl

theorem outcome_fault {s : Text} (h : s <:+ p.whole) (error : SyntaxError) :
    outcome (p.fault error : Action α) s = some (.error (.here ⟨s, .syntaxError error⟩), s) := by
  rw [fault, outcome_bind]
  exact outcome_refuse h _ s

/-! ## Specification -/

/-- From the cursor `s` the action ends with its cursor in `s`: with a result that `P` holds of, and of the text that is
    left, or with a failure, which lies at a place of `lies` if it is one of the text itself. -/
def Keeps (x : Action α) (s : Text) (lies : Text → Prop) (P : α → Text → Prop) : Prop :=
  ∃ result r, outcome x s = some (result, r) ∧ r <:+ s ∧
    match result with
    | .ok a => P a r
    | .error failure => failure.LiesIn lies

variable {s : Text} {lies lies' : Text → Prop} {P P' : α → Text → Prop} {Q : β → Text → Prop}

namespace Keeps

theorem of_outcome {x : Action α} {a : α} {r : Text} (h : outcome x s = some (.ok a, r)) (hr : r <:+ s) (ha : P a r) :
    Keeps x s lies P :=
  ⟨.ok a, r, h, hr, ha⟩

theorem pure {a : α} (ha : P a s) : Keeps (Pure.pure a) s lies P := of_outcome rfl List.suffix_rfl ha

theorem refuse {rest : Text} {cause : Cause} (hrest : rest <:+ p.whole) (hlies : lies rest) :
    Keeps (p.refuse rest cause) s lies P :=
  ⟨_, s, outcome_refuse hrest cause s, List.suffix_rfl, hlies⟩

theorem fault {error : SyntaxError} (hs : s <:+ p.whole) (hlies : lies s) : Keeps (p.fault error) s lies P :=
  ⟨_, s, outcome_fault hs error, List.suffix_rfl, hlies⟩

/-- Weaker things hold of how an action ends. -/
theorem mono {x : Action α} (h : Keeps x s lies P) (hlies : ∀ u, lies u → lies' u)
    (hP : ∀ a r, P a r → P' a r) : Keeps x s lies' P' := by
  obtain ⟨result, r, hout, hr, hend⟩ := h
  refine ⟨result, r, hout, hr, ?_⟩
  cases result with
  | ok a => exact hP a r hend
  | error failure => exact hend.mono hlies

/-- What lies in the text at the cursor lies in all of the text before. -/
theorem within {x : Action α} (h : Keeps x s (· <:+ s) P) (hlies : ∀ u, u <:+ s → lies u) : Keeps x s lies P :=
  h.mono hlies fun _ _ ha => ha

theorem imp {x : Action α} (h : Keeps x s lies P) (hP : ∀ a r, P a r → P' a r) : Keeps x s lies P' :=
  h.mono (fun _ hu => hu) hP

/-- An action goes on from where the one before it left the cursor. -/
theorem bind {x : Action α} {f : α → Action β} (hx : Keeps x s lies P)
    (hf : ∀ a r, r <:+ s → P a r → Keeps (f a) r lies Q) : Keeps (x >>= f) s lies Q := by
  obtain ⟨result, r, hout, hr, hend⟩ := hx
  cases result with
  | ok a =>
    obtain ⟨result', r', hout', hr', hend'⟩ := hf a r hr hend
    refine ⟨result', r', ?_, hr'.trans hr, hend'⟩
    rw [outcome_bind, hout]
    exact hout'
  | error failure =>
    refine ⟨.error failure, r, ?_, hr, hend⟩
    rw [outcome_bind, hout]

theorem map {x : Action α} {f : α → β} (h : Keeps x s lies fun a r => Q (f a) r) : Keeps (f <$> x) s lies Q := by
  obtain ⟨result, r, hout, hr, hend⟩ := h
  refine ⟨result.map f, r, ?_, hr, ?_⟩
  · rw [outcome_map, hout]
    rfl
  · cases result with
    | ok a => exact hend
    | error failure => exact hend

theorem get_bind {f : Text → Action β} (h : Keeps (f s) s lies Q) : Keeps (get >>= f) s lies Q :=
  bind (P := fun a r => a = s ∧ r = s) (of_outcome rfl List.suffix_rfl ⟨rfl, rfl⟩) fun a r _ ⟨ha, hr⟩ => by
    subst ha hr; exact h

theorem set_bind {r : Text} {f : Unit → Action β} (hr : r <:+ s) (h : Keeps (f ()) r lies Q) :
    Keeps (set r >>= f) s lies Q :=
  bind (P := fun _ u => u = r) (of_outcome rfl hr rfl) fun _ u _ hu => by
    subst hu; exact h

theorem expect {c : Char} {error : SyntaxError} (hs : s <:+ p.whole) (hlies : lies s) :
    Keeps (p.expect c error) s lies fun _ r => s = c :: r := by
  refine .get_bind ?_
  split
  · exact .fault hs hlies
  · split_ifs with hc
    · subst hc
      exact .of_outcome rfl (List.suffix_cons _ _) rfl
    · exact .fault hs hlies

theorem locate {rest : Text} (hrest : rest <:+ p.whole) : Keeps (p.locate rest) s lies fun _ r => r = s :=
  of_outcome (outcome_locate hrest s) List.suffix_rfl rfl

theorem takeRun (q : Char → Bool) : Keeps (takeRun q) s lies fun a r => a = s.takeWhile q ∧ r = s.dropWhile q :=
  .get_bind (.set_bind (List.dropWhile_suffix q) (.pure ⟨rfl, rfl⟩))

/-- An action whose own failures lie at `start`. -/
theorem answer {x : Inquiry Failure Text} {start : Text} (hstart : start <:+ p.whole) (hlies : lies start)
    (hx : ∀ defect, (x.run p.files).result = .error (.here defect) → defect.rest = start) :
    Keeps (p.answer x) s lies fun _ r => r = s := by
  unfold Pass.answer
  split
  · exact .pure rfl
  · rename_i defect hdefect
    rw [hx defect hdefect]
    exact .refuse hstart hlies
  · exact ⟨_, s, rfl, List.suffix_rfl, trivial⟩

end Keeps

/-! ## References and directives -/

theorem rest_of_lookUp {c : Context} {files : Files} {start name : Text} {defect : Defect}
    (h : ((c.lookUp start name).run files).result = .error (.here defect)) : defect.rest = start := by
  unfold Context.lookUp at h
  split at h
  · cases h
  · cases h
    rfl

theorem rest_of_command {c : Context} {e : Context.Expander} {files : Files} {start : Text} {words : List Text}
    {defect : Defect} (h : ((c.command (c.within e) start words).run files).result = .error (.here defect)) :
    defect.rest = start := by
  have hstart : ∀ cause, c.Refuses files cause →
      ∀ d, Failure.here ⟨start, cause⟩ = .here d → d.rest = start := by
    rintro cause - d ⟨⟩
    rfl
  obtain ⟨vs, hvs⟩ :=
    Context.command_visits (e := e) (Q := fun f => ∀ d, f = .here d → d.rest = start) hstart words
  rcases hvs.failure _ h with ⟨q, -, err, -, hf⟩ | hf
  · cases hf
  · exact hf defect rfl

/-! ## Expansions and words -/

-- The induction is on how many calls may be nested. For a text there are enough if there are five for each of its
-- characters, since the calls that lead from one character to the next are those of words, of a turn of them, of a
-- name, of a turn of it and of an expansion; the bounds differ by how many of these have been made.
mutual

theorem keeps_expansion (n : Nat) (s : Text) (hs : s <:+ p.whole) (hn : 5 * s.length < n) :
    Keeps (p.expansion n) s (· <:+ s) fun _ r => r.length < s.length := by
  obtain ⟨m, hm⟩ := Nat.exists_eq_succ_of_ne_zero (Nat.ne_zero_of_lt hn)
  rw [hm, expansion]
  refine .get_bind (.bind (.expect hs List.suffix_rfl) fun _ r hr hsplit => .get_bind ?_)
  subst hsplit
  have hrest := hr.trans hs
  rw [List.length_cons] at hn
  split
  · rename_i u
    have hkeeps := keeps_directive m _ _ hs hrest (by omega)
    refine hkeeps.mono (fun w hw => ?_) fun _ _ hlt => hlt.trans (Nat.lt_succ_self _)
    exact hw.elim (·.trans hr) fun h => h ▸ List.suffix_rfl
  · rename_i u
    have hkeeps := keeps_reference m _ _ hs hrest (by omega)
    refine hkeeps.mono (fun w hw => ?_) fun _ _ hlt => hlt.trans (Nat.lt_succ_self _)
    exact hw.elim (·.trans hr) fun h => h ▸ List.suffix_rfl
  · exact .set_bind (List.suffix_cons _ _) (.pure (by simp only [List.length_cons]; omega))
  · exact .set_bind (List.suffix_cons _ _) (.pure (by simp only [List.length_cons]; omega))
  · rename_i u
    have hu := length_dropWhile_le isLineChar u
    refine .set_bind (suffix_cons_of _ (suffix_cons_of _ (List.dropWhile_suffix _))) (.pure ?_)
    simp only [List.length_cons]
    omega
  · exact .fault hrest hr
termination_by n

theorem keeps_directive (n : Nat) (start s : Text) (hstart : start <:+ p.whole) (hs : s <:+ p.whole)
    (hn : 5 * s.length < n) :
    Keeps (p.directive n start) s (fun u => u <:+ s ∨ u = start) fun _ r => r.length < s.length := by
  obtain ⟨m, hm⟩ := Nat.exists_eq_succ_of_ne_zero (Nat.ne_zero_of_lt hn)
  rw [hm, directive]
  refine .bind (.expect hs (.inl List.suffix_rfl)) fun _ r hr hsplit => .bind (.takeRun isGap) fun _ u hu _ => ?_
  have hlt : u.length < s.length := by
    rw [hsplit, List.length_cons]
    exact Nat.lt_succ_of_le hu.length_le
  have hus := hu.trans hr
  refine .bind ((keeps_words m true u (hus.trans hs) (by omega)).within fun v hv => .inl (hv.trans hus))
    fun ws v _ hv => ?_
  have hshort := hv.trans hlt
  split_ifs
  · exact .pure hshort
  · refine .bind (.locate hstart) fun _ w _ hw => ?_
    refine (Keeps.answer hstart (.inr rfl) fun _ => rest_of_command).imp fun _ x hx => ?_
    rw [hx, hw]
    exact hshort
termination_by n

theorem keeps_words (n : Nat) (separated : Bool) (s : Text) (hs : s <:+ p.whole) (hn : 5 * s.length + 4 < n) :
    Keeps (p.words n separated) s (· <:+ s) fun _ r => r.length < s.length := by
  obtain ⟨m, hm⟩ := Nat.exists_eq_succ_of_ne_zero (Nat.ne_zero_of_lt hn)
  rw [hm, words]
  refine .bind (keeps_wordTurn m separated s hs (by omega)) fun o r hr hlt => ?_
  split
  · exact .pure hlt
  · rename_i word separated'
    refine .bind ((keeps_words m separated' r (hr.trans hs) (by omega)).within fun _ h => h.trans hr) ?_
    intro _ u _ hu
    exact .pure (hu.trans hlt)
termination_by n

theorem keeps_wordTurn (n : Nat) (separated : Bool) (s : Text) (hs : s <:+ p.whole) (hn : 5 * s.length + 3 < n) :
    Keeps (p.wordTurn n separated) s (· <:+ s) fun _ r => r.length < s.length := by
  obtain ⟨m, hm⟩ := Nat.exists_eq_succ_of_ne_zero (Nat.ne_zero_of_lt hn)
  rw [hm, wordTurn]
  refine .get_bind ?_
  split
  · exact .set_bind (List.suffix_cons _ _) (.pure (Nat.lt_succ_self _))
  · split_ifs
    · refine .bind (keeps_name m .noDirectiveWord 0 s hs (by omega)) fun word r hr hlt => ?_
      refine .bind (.takeRun isGap) fun gap u hu _ => .pure ?_
      exact hu.length_le.trans_lt (hlt rfl)
    · exact .fault hs List.suffix_rfl
termination_by n

theorem keeps_reference (n : Nat) (start s : Text) (hstart : start <:+ p.whole) (hs : s <:+ p.whole)
    (hn : 5 * s.length < n) :
    Keeps (p.reference n start) s (fun u => u <:+ s ∨ u = start) fun _ r => r.length < s.length := by
  obtain ⟨m, hm⟩ := Nat.exists_eq_succ_of_ne_zero (Nat.ne_zero_of_lt hn)
  rw [hm, reference]
  refine .bind (.expect hs (.inl List.suffix_rfl)) fun _ r hr hsplit => ?_
  have hlt : r.length < s.length := by
    rw [hsplit]
    exact Nat.lt_succ_self _
  have hrest := hr.trans hs
  refine .bind ((keeps_name m .noVariableName 0 r hrest (by omega)).within fun v hv => .inl (hv.trans hr))
    fun _ u hu hu' => ?_
  have hus := hu.trans hr
  refine .bind (.expect (hus.trans hs) (.inl hus)) fun _ v hv _ => ?_
  refine (Keeps.answer hstart (.inr rfl) fun _ => rest_of_lookUp).imp fun _ w hw => ?_
  rw [hw]
  exact (hv.length_le.trans hu.length_le).trans_lt hlt
termination_by n

theorem keeps_name (n : Nat) (missing : SyntaxError) (parts : Nat) (s : Text) (hs : s <:+ p.whole)
    (hn : 5 * s.length + 2 < n) :
    Keeps (p.name n missing parts) s (· <:+ s) fun _ r => parts = 0 → r.length < s.length := by
  obtain ⟨m, hm⟩ := Nat.exists_eq_succ_of_ne_zero (Nat.ne_zero_of_lt hn)
  rw [hm, name]
  refine .bind (keeps_nameTurn m missing parts s hs (by omega)) fun o r hr hend => ?_
  split
  · exact .pure fun hparts => absurd hparts (hend.2 rfl)
  · rename_i part
    have hlt : r.length < s.length := hend.1 rfl
    refine .bind ((keeps_name m missing (parts + 1) r (hr.trans hs) (by omega)).within fun _ h => h.trans hr) ?_
    intro _ u hu _
    exact .pure fun _ => hu.length_le.trans_lt hlt
termination_by n

theorem keeps_nameTurn (n : Nat) (missing : SyntaxError) (parts : Nat) (s : Text) (hs : s <:+ p.whole)
    (hn : 5 * s.length + 1 < n) :
    Keeps (p.nameTurn n missing parts) s (· <:+ s) fun o r =>
      (o.isSome = true → r.length < s.length) ∧ (o = none → parts ≠ 0) := by
  obtain ⟨m, hm⟩ := Nat.exists_eq_succ_of_ne_zero (Nat.ne_zero_of_lt hn)
  rw [hm, nameTurn]
  refine .get_bind ?_
  split
  · split_ifs with hparts
    · exact .fault hs List.suffix_rfl
    · exact .pure ⟨nofun, fun _ => hparts⟩
  · rename_i c r
    split_ifs with hquote hdollar hword hparts
    · split
      · rename_i t u hread
        have hlt := Quoted.length_lt_of_read hread
        obtain ⟨w, -, hw⟩ := Quoted.writes_of_read hread
        have hu : u <:+ c :: r := by
          rw [hw]
          exact suffix_cons_of _ ((List.suffix_cons _ _).trans (List.suffix_append _ _))
        exact .set_bind hu (.pure ⟨fun _ => hlt.trans (Nat.lt_succ_self _), nofun⟩)
      · rename_i f hread
        have hf := suffix_cons_of c (Quoted.fault_of_read hread).1
        exact .set_bind hf (.fault (hf.trans hs) hf)
    · refine .map ((keeps_expansion m (c :: r) hs (by omega)).imp fun _ _ h => ?_)
      exact ⟨fun _ => h, nofun⟩
    · refine .map ((Keeps.takeRun isBarewordChar).imp fun _ u hu => ⟨fun _ => ?_, nofun⟩)
      rw [hu.2, List.dropWhile_cons, if_pos hword]
      exact Nat.lt_succ_of_le (length_dropWhile_le _ _)
    · exact .fault hs List.suffix_rfl
    · exact .pure ⟨nofun, fun _ => hparts⟩
termination_by n

end

/-! ## Lines -/

theorem keeps_pieceTurn (n : Nat) (s : Text) (hs : s <:+ p.whole) (hn : 5 * s.length < n) :
    Keeps (p.pieceTurn n) s (· <:+ s) fun o r => o.isSome = true ∨ s ≠ [] → r.length < s.length := by
  refine .get_bind ?_
  split
  · exact .pure nofun
  · rename_i c r
    split_ifs with hnewline hdollar
    · exact .set_bind (List.suffix_cons _ _) (.pure fun _ => Nat.lt_succ_self _)
    · exact .map ((keeps_expansion n (c :: r) hs hn).imp fun _ _ h _ => h)
    · refine .map ((Keeps.takeRun isLiteralChar).imp fun _ u hu _ => ?_)
      have hliteral : isLiteralChar c = true := by simp [isLiteralChar, hnewline, hdollar]
      rw [hu.2, List.dropWhile_cons, if_pos hliteral]
      exact Nat.lt_succ_of_le (length_dropWhile_le _ _)

theorem keeps_pieces (n : Nat) (s : Text) (hs : s <:+ p.whole) (hn : 5 * s.length + 1 < n) :
    Keeps (p.pieces n) s (· <:+ s) fun _ r => s ≠ [] → r.length < s.length := by
  induction n generalizing s with
  | zero => omega
  | succ n ih =>
    rw [pieces]
    refine .bind (keeps_pieceTurn n s hs (by omega)) fun o r hr hturn => ?_
    split
    · exact .pure fun hne => hturn (.inr hne)
    · have hlt : r.length < s.length := hturn (.inl rfl)
      refine .bind ((ih r (hr.trans hs) (by omega)).within fun _ h => h.trans hr) fun _ u hu _ => ?_
      exact .pure fun _ => hu.length_le.trans_lt hlt

theorem keeps_line (n : Nat) (s : Text) (hs : s <:+ p.whole) (hn : 5 * s.length + 1 < n) :
    Keeps (p.line n) s (· <:+ s) fun _ r => s ≠ [] → r.length < s.length := by
  refine .bind (.takeRun isBlank) fun indent r hr hindent => .get_bind ?_
  have hle := hr.length_le
  split
  · rename_i u hu
    have hlt := length_lt_of_skipCommentLine? hu
    obtain ⟨v, rfl, rfl⟩ := skipCommentLine?_eq_some hu
    have hv : (v.dropWhile isLineChar).drop 1 <:+ v := (List.drop_suffix _ _).trans (List.dropWhile_suffix _)
    exact .set_bind (suffix_cons_of _ (suffix_cons_of _ (suffix_cons_of _ hv))) (.pure fun _ => hlt.trans_le hle)
  · refine .bind ((keeps_pieces n r (hr.trans hs) (by omega)).within fun _ h => h.trans hr) fun _ u hu hlt => ?_
    refine .pure fun hne => ?_
    cases r with
    | nil =>
      rw [List.suffix_nil.1 hu]
      exact List.length_pos_iff.2 hne
    | cons c r => exact (hlt (List.cons_ne_nil _ _)).trans_le hle

theorem keeps_lineTurn (n : Nat) (s : Text) (hs : s <:+ p.whole) (hn : 5 * s.length + 1 < n) :
    Keeps (p.lineTurn n) s (· <:+ s) fun o r =>
      (o.isSome = true → r.length < s.length) ∧ (o = none → r = []) := by
  refine .get_bind ?_
  split_ifs with hempty
  · exact .pure ⟨nofun, fun _ => List.isEmpty_iff.1 hempty⟩
  · have hne : s ≠ [] := by simpa using hempty
    exact .map ((keeps_line n s hs hn).imp fun _ _ h => ⟨fun _ => h hne, nofun⟩)

theorem keeps_lines (n : Nat) (s : Text) (hs : s <:+ p.whole) (hn : 5 * s.length + 2 < n) :
    Keeps (p.lines n) s (· <:+ s) fun _ r => r = [] := by
  induction n generalizing s with
  | zero => omega
  | succ n ih =>
    rw [lines]
    refine .bind (keeps_lineTurn n s hs (by omega)) fun o r hr hturn => ?_
    split
    · exact .pure (hturn.2 rfl)
    · have hlt : r.length < s.length := hturn.1 rfl
      refine .bind ((ih r (hr.trans hs) (by omega)).within fun _ h => h.trans hr) fun _ u _ hu => ?_
      exact .pure hu

end Pass

end TextTemplate

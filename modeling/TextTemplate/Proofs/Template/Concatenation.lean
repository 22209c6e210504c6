import TextTemplate.Proofs.Template.Continuation

/-!
# Templates put together

Behind a template that ends its line a text is read as it is alone, and evaluated after it. Behind a text that is
no template nothing is evaluated, unless it lets a directive open at its end; and then what is complete in it is
evaluated first.

Main results:
* `Template.Derives.read_append`: how two texts are read.
* `evalText_append`, `evalText_append_of_fault`, `precedes_evalText_append`: how they are evaluated.
-/

namespace TextTemplate

/-! ## Reading -/

/-- A template that ends its line goes on with the lines of what follows. -/
theorem Template.Derives.read_append {ts : Template} {s : Text} (h : ts.Derives s) (hs : EndsLine s)
    (x : Text) :
    Template.read (s ++ x) =
      match Template.read x with
      | .error t => .error (t.after ((ts.inFrontOf x).flatMap Line.parts))
      | .ok ls => .ok (ts.inFrontOf x ++ ls) := by
  induction h with
  | nil =>
    rw [List.nil_append]
    cases Template.read x <;> rfl
  | cons hl hne _ ih =>
    rename_i s r l ls _
    have hs' := hl.ne_nil hne
    obtain ⟨hr, hl'⟩ := hl.append hs hs' x
    obtain ⟨k, hl'⟩ := hl'.read
    have hne' : s ++ x ≠ [] := fun hnil => hs' (List.append_eq_nil_iff.1 hnil).1
    rw [Template.read_of_readLine hne' hl', ih hr, Template.inFrontOf_cons]
    cases Template.read x with
    | error t => simp [Truncation.after]
    | ok ls' => rfl

/-! ## Evaluation -/

variable {m : Semantics}

/-- Where only the end of an evaluation counts, the lines of a template are their parts. -/
theorem Template.eval_bind_const {β : Type} (ts : Template) (z : Inquiry Failure β) :
    ((Template.eval m ts).bind fun _ => z) =
      (evalParts m (ts.flatMap Line.parts)).bind fun _ => z := by
  induction ts with
  | nil => rfl
  | cons l ls ih =>
    have hline : ∀ z : Inquiry Failure β,
        ((l.eval m).bind fun _ => z) = (evalParts m l.parts).bind fun _ => z := by
      intro z
      cases l with
      | elided => rfl
      | content indent parts => exact Inquiry.bind_assoc _ _ _
    rw [List.flatMap_cons, evalParts_append, Template.eval_cons]
    simp only [Inquiry.bind_assoc, Inquiry.bind, ih, hline]

/-- A text that is no template fails, and nothing follows. -/
theorem Truncation.eval_bind (t : Truncation) (f : Text → Inquiry Failure Text) :
    (t.eval m).bind f = t.eval m :=
  Inquiry.bind_assoc _ _ _

theorem Truncation.run_eval_ne_ok (t : Truncation) (files : Files) (o : Text) :
    ((t.eval m).run files).result ≠ .ok o := by
  rw [Truncation.eval_eq, Inquiry.run_bind]
  intro h
  cases hbefore : ((evalParts m t.before).run files).result with
  | ok u => rw [hbefore] at h; cases h
  | error f => rw [hbefore] at h; cases h

theorem Truncation.eval_after (t : Truncation) (ps : List Part) :
    (t.after ps).eval m = (evalParts m ps).bind fun _ => t.eval m := by
  rw [Truncation.eval_eq, Truncation.after, evalParts_append]
  simp only [Inquiry.bind_assoc, Inquiry.bind]
  rfl

/-- Only templates are evaluated with success. -/
theorem exists_derives_of_run_evalText {files : Files} {s o : Text}
    (h : ((evalText m s).run files).result = .ok o) : ∃ ts : Template, ts.Derives s := by
  unfold evalText at h
  split at h
  · rename_i ts hts; exact ⟨ts, Template.read_eq_ok_iff.1 hts⟩
  · exact absurd h (Truncation.run_eval_ne_ok _ files o)

/-- Behind a template that ends its line the evaluation goes on with what follows. -/
theorem evalText_append {ts : Template} {s : Text} (hm : m.Uniform) (h : ts.Derives s)
    (hs : EndsLine s) (x : Text) :
    evalText m (s ++ x) =
      ((evalText m s).mapError (.inFrontOf x)).bind fun u =>
        (evalText m x).bind fun v => .pure (u ++ v) := by
  have heval : evalText m s = Template.eval m ts := by rw [evalText, h.read]
  rw [heval, ← Template.eval_inFrontOf hm]
  unfold evalText
  rw [h.read_append hs]
  cases Template.read x with
  | ok ls => exact Template.eval_append m _ ls
  | error t =>
    simp only [Truncation.eval_after, Truncation.eval_bind, ← Template.eval_bind_const]

/-- A fault before the end stays one. -/
theorem evalText_append_of_fault {t : Truncation} {s : Text} (hm : m.Uniform)
    (h : Template.read s = .error t) (hs : EndsLine s) (hfault : t.fault.rest ≠ []) (x : Text) :
    evalText m (s ++ x) = (evalText m s).mapError (.inFrontOf x) := by
  unfold evalText
  rw [h, (Template.read_continues h hs x).closed hfault]
  exact Truncation.eval_inFrontOf hm x t

/-- What is complete before a fault is evaluated first, whatever follows. -/
theorem precedes_evalText_append {t : Truncation} {s : Text} (h : Template.read s = .error t)
    (hs : EndsLine s) (x : Text) :
    (evalParts m (partsInFrontOf x t.before)).Precedes (evalText m (s ++ x)) := by
  have hc := Template.read_continues h hs x
  unfold evalText
  by_cases hfault : t.fault.rest = []
  · have hy := hc.opened hfault m
    split
    · rename_i ls hls; exact hy.of_ok hls
    · rename_i t' ht'; exact (hy.of_error ht').bind _
  · rw [hc.closed hfault]
    exact (Inquiry.precedes_self _).bind _

end TextTemplate

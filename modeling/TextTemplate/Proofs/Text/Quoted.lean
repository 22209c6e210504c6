import TextTemplate.Proofs.Bindings.Segments
import TextTemplate.Template.Reader

/-!
# What quoted strings spell

Behind its opening quote a quoted string goes on up to the first closing quote that no backslash escapes. It spells any
text without control characters other than the newline, and the quote that it does not stand between may be escaped or
not. Where it breaks off before, it is refused there, and nothing else is tried in its place.

Main results:
* `Quoted.read_eq_error_iff`: where a string breaks off, and how.
* `Quoted.Escapes.writes`: all the ways to escape a text are read as the text.
* `Bindings.readSegments_quoted_error`, `readPart_quoted_error`: a string that breaks off is not read as anything else.
* `Quoted.read_exactly`: the language of quoted strings.
-/

namespace TextTemplate

namespace Quoted

/-! ## Specification -/

/-- A character that a quoted string can spell: no control character but the newline. -/
def CanSpell (c : Char) : Prop := ' ' ≤ c ∨ c = '\n'

/-- The first text is the second with its backslashes, its newlines and the quotes `q` escaped, and with any of the other
    quotes escaped. -/
inductive Escapes (q : Char) : Text → Text → Prop
  | nil : Escapes q [] []
  | cons {w t : Text} (c : Char) : Escapes q w t → Escapes q (escape q c ++ w) (c :: t)
  | quote {c : Char} {w t : Text} : isQuote c = true → Escapes q w t → Escapes q ('\\' :: c :: w) (c :: t)

/-- The first text starts with what is written between quotes `q` and goes on with the second text, where a string cannot
    go on: behind a backslash that starts no escape, or at a control character or the end of the text. -/
inductive BreaksOff (q : Char) : Text → Text → SyntaxError → Prop
  | escape {w t r : Text} : Writes q w t → (∀ c ∈ r.head?, unescape? c = none) →
      BreaksOff q (w ++ '\\' :: r) r .unsupportedEscape
  | string {w t r : Text} : Writes q w t → (∀ c ∈ r.head?, c < ' ') →
      BreaksOff q (w ++ r) r .unterminatedString

/-! ## What is spelled -/

section Spelling

variable {q : Char} {w t : Text}

theorem canSpell_of_unescape? {c d : Char} (h : unescape? c = some d) : CanSpell d := by
  unfold unescape? at h
  split at h <;> cases h <;> simp [CanSpell]

theorem Writes.canSpell (h : Writes q w t) : ∀ c ∈ t, CanSpell c := by
  induction h with
  | nil => simp
  | raw hc _ _ _ ih => exact List.forall_mem_cons.2 ⟨.inl hc, ih⟩
  | escape hd _ ih => exact List.forall_mem_cons.2 ⟨canSpell_of_unescape? hd, ih⟩

/-- A character that can be spelled is written as its escape. -/
theorem Writes.escape_append (hq : isQuote q = true) {c : Char} (hc : CanSpell c) (h : Writes q w t) :
    Writes q (Quoted.escape q c ++ w) (c :: t) := by
  unfold Quoted.escape
  split_ifs with hself hnewline
  · refine .escape ?_ h
    rcases hself with rfl | rfl
    · rfl
    · exact unescape?_quote hq
  · subst hnewline
    exact .escape rfl h
  · rw [not_or] at hself
    exact .raw (hc.resolve_right hnewline) hself.1 hself.2 h

/-- However a text is escaped, it is what is written. -/
theorem Escapes.writes (hq : isQuote q = true) (h : Escapes q w t) (ht : ∀ c ∈ t, CanSpell c) :
    Writes q w t := by
  induction h with
  | nil => exact .nil
  | cons c _ ih =>
    rw [List.forall_mem_cons] at ht
    exact (ih ht.2).escape_append hq ht.1
  | quote hc _ ih =>
    rw [List.forall_mem_cons] at ht
    exact .escape (unescape?_quote hc) (ih ht.2)

theorem escapes_encodeBody (q : Char) (t : Text) : Escapes q (encodeBody q t) t := by
  induction t with
  | nil => exact .nil
  | cons c t ih => exact .cons c ih

/-- What is encoded is written for the text. -/
theorem writes_encodeBody (hq : isQuote q = true) (ht : ∀ c ∈ t, CanSpell c) : Writes q (encodeBody q t) t :=
  (escapes_encodeBody q t).writes hq ht

end Spelling

/-! ## Strings that break off -/

section Breaking

variable {q c d : Char} {s r : Text} {error : SyntaxError}

theorem BreaksOff.raw (hc : ' ' ≤ c) (hb : c ≠ '\\') (hne : c ≠ q) (h : BreaksOff q s r error) :
    BreaksOff q (c :: s) r error := by
  cases h with
  | escape hw hr => exact .escape (.raw hc hb hne hw) hr
  | string hw hr => exact .string (.raw hc hb hne hw) hr

theorem BreaksOff.escaped (hd : unescape? c = some d) (h : BreaksOff q s r error) :
    BreaksOff q ('\\' :: c :: s) r error := by
  cases h with
  | escape hw hr => exact .escape (.escape hd hw) hr
  | string hw hr => exact .string (.escape hd hw) hr

theorem breaksOff_of_read {f : Fault} (h : read q s = .error f) : BreaksOff q s f.rest f.error := by
  fun_induction read q s with
  | case1 => cases h; exact .string .nil (by simp)
  | case2 => cases h; exact .escape .nil (by simp)
  | case3 c u hc =>
    cases h
    refine .escape .nil fun d hd => ?_
    cases hd
    exact hc
  | case4 c u d hd ih => exact (ih (error_of_map_eq_error h)).escaped hd
  | case5 => cases h
  | case6 c u hb hb' hq hl =>
    cases h
    refine .string .nil fun d hd => ?_
    cases hd
    exact hl
  | case7 c u hb hb' hq hl ih =>
    exact (ih (error_of_map_eq_error h)).raw (Char.not_lt.1 hl) (ne_backslash hb hb') hq

/-- What is written in front of a fault is read up to it. -/
theorem read_append_of_error {w t : Text} (hw : Writes q w t) {u : Text} {f : Fault}
    (h : read q u = .error f) : read q (w ++ u) = .error f := by
  induction hw with
  | nil => exact h
  | raw hc hb hne _ ih =>
    rw [List.cons_append, read_cons hb, if_neg hne, if_neg (Char.not_lt.2 hc), ih]
    rfl
  | escape hd _ ih =>
    rw [List.cons_append, List.cons_append, read, hd]
    simp only [ih]
    rfl

theorem read_of_breaksOff (hq : isQuote q = true) (h : BreaksOff q s r error) :
    read q s = .error ⟨r, error⟩ := by
  cases h with
  | escape hw hr =>
    refine read_append_of_error hw ?_
    cases r with
    | nil => rfl
    | cons c r => rw [read, hr c rfl]
  | string hw hr =>
    refine read_append_of_error hw ?_
    cases r with
    | nil => rfl
    | cons c r =>
      have hc := hr c rfl
      have hb : c ≠ '\\' := by rintro rfl; exact absurd hc (by decide)
      have hne : c ≠ q := by
        rintro rfl
        simp only [isQuote, Bool.or_eq_true, beq_iff_eq] at hq
        rcases hq with rfl | rfl <;> exact absurd hc (by decide)
      rw [read_cons hb, if_neg hne, if_pos hc]

/-- Reading behind the opening quote fails exactly where the string breaks off. -/
theorem read_eq_error_iff (hq : isQuote q = true) :
    read q s = .error ⟨r, error⟩ ↔ BreaksOff q s r error :=
  ⟨breaksOff_of_read, read_of_breaksOff hq⟩

end Breaking

end Quoted

/-! ## Nothing else is tried -/

section Committed

variable {q : Char} {s : Text} {f : Fault}

theorem Bindings.readSegments_quoted_error (hq : isQuote q = true) (h : Quoted.read q s = .error f)
    (p : Char → Bool) : readSegments p (q :: s) = .error f := by
  rw [readSegments_quoted hq, h]

theorem readPart_quoted_error (hq : isQuote q = true) (h : Quoted.read q s = .error f) :
    readPart (q :: s) = .error (.ofFault f) := by
  have hd : q ≠ '$' := by rintro rfl; exact absurd hq (by decide)
  unfold readPart
  simp only [hd, hq, if_true, if_false]
  split
  · rename_i h'; rw [h] at h'; cases h'; rfl
  · rename_i h'; rw [h] at h'; cases h'

end Committed

/-! ## Main theorem -/

/-- Behind an opening quote a string is read up to its closing quote if it is written there, and what it spells has no
    control character but the newline. Else reading fails where the string breaks off, in names, values and words
    alike. And a text without other control characters is read again however it was escaped. -/
theorem Quoted.read_exactly {q : Char} (hq : isQuote q = true) (s : Text) :
    (∀ t r, read q s = .ok (t, r) ↔ ∃ w, Writes q w t ∧ s = w ++ q :: r) ∧
    (∀ t r, read q s = .ok (t, r) → ∀ c ∈ t, CanSpell c) ∧
    (∀ r error, read q s = .error ⟨r, error⟩ ↔ BreaksOff q s r error) ∧
    (∀ f, read q s = .error f →
      (f.error = .unsupportedEscape ∧ f.error.message = "unsupported escape sequence".toList ∨
        f.error = .unterminatedString ∧ f.error.message = "unterminated quoted string".toList) ∧
      (∀ p, Bindings.readSegments p (q :: s) = .error f) ∧ readPart (q :: s) = .error (.ofFault f)) ∧
    ∀ t w r, (∀ c ∈ t, CanSpell c) → Escapes q w t → read q (w ++ q :: r) = .ok (t, r) := by
  refine ⟨fun t r => read_eq_ok_iff hq, ?_, fun r error => read_eq_error_iff hq, ?_, ?_⟩
  · intro t r h
    obtain ⟨w, hw, -⟩ := writes_of_read h
    exact hw.canSpell
  · intro f h
    refine ⟨?_, Bindings.readSegments_quoted_error hq h, readPart_quoted_error hq h⟩
    obtain ⟨r, error⟩ := f
    cases breaksOff_of_read h with
    | escape => exact .inl ⟨rfl, rfl⟩
    | string => exact .inr ⟨rfl, rfl⟩
  · intro t w r ht hw
    exact read_of_writes hq (hw.writes hq ht) r

/-- A string with both quotes, one of them escaped without need, a newline and a doubled backslash before its end; and one
    with an escape that there is not, behind an escaped quote. -/
theorem Quoted.read_exactly_escapes :
    isQuote '\'' = true ∧
    read '\'' "a\"\\\"\\'\\n\\\\' rest".toList = .ok ("a\"\"'\n\\".toList, " rest".toList) ∧
    read '\'' "\\'a\\t'".toList = .error ⟨"t'".toList, .unsupportedEscape⟩ ∧
    readPart ('\'' :: "\\'a\\t'".toList) = .error (.ofFault ⟨"t'".toList, .unsupportedEscape⟩) := by
  have hwritten : Escapes '\'' "a\"\\\"\\'\\n\\\\".toList "a\"\"'\n\\".toList :=
    .cons 'a' (.cons '"' (.quote rfl (.cons '\'' (.cons '\n' (.cons '\\' .nil)))))
  have hbreaks : BreaksOff '\'' "\\'a\\t'".toList "t'".toList .unsupportedEscape :=
    .escape (.escape rfl (.raw (by decide) (by decide) (by decide) .nil)) fun c hc => by cases hc; rfl
  obtain ⟨-, -, hfails, hcommitted, -⟩ := read_exactly (q := '\'') rfl "\\'a\\t'".toList
  obtain ⟨-, -, -, -, hescaped⟩ := read_exactly (q := '\'') rfl []
  have herror := (hfails _ _).2 hbreaks
  refine ⟨rfl, hescaped _ _ _ ?_ hwritten, herror, (hcommitted _ herror).2.2⟩
  simp [CanSpell]

end TextTemplate

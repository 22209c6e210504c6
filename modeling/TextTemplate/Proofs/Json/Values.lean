import TextTemplate.Proofs.Json

/-!
# The texts of values

A value has many texts, for blank space may stand around every item, key and value, and strings may be written in many
ways. But a text is that of one value at most: its first character tells what sort of value it is, and the marks between
items and members, and behind the last of them, tell where each ends. What is written for a value, compactly or over
several lines, is a text of it.

Main results:
* `ValueText.append_inj`, `PaddedText.unique`: a text is that of one value at most.
* `valueText_compact`, `valueText_prettyAt`: what is written for a value is a text of it.
* `objectText_iff`: the texts of objects of strings among those of values.
-/

namespace TextTemplate.Json

/-! ## Specification -/

/-- Decimal digits are written for the number. -/
structure NumeralText (s : Text) (n : Nat) : Prop where
  /-- They are digits. -/
  digits : ∀ c ∈ s, c.isDigit = true
  /-- There is one at least. -/
  ne_nil : s ≠ []
  /-- A zero stands at the front of no other. -/
  front : s.head? = some '0' → s = ['0']
  /-- They stand for the number. -/
  value : Nat.ofDigitChars 10 s 0 = n

/-- The texts of things, one at least, with commas between them. -/
inductive Separated {α : Type} (R : α → Text → Prop) : List α → Text → Prop
  | last {x : α} {s : Text} : R x s → Separated R [x] s
  | cons {x : α} {xs : List α} {s t : Text} : R x s → Separated R xs t → Separated R (x :: xs) (s ++ ',' :: t)

/-- The texts of things with commas between them, or blank space if there are none. -/
inductive Listed {α : Type} (R : α → Text → Prop) : List α → Text → Prop
  | none {b : Text} : Blanks b → Listed R [] b
  | some {xs : List α} {s : Text} : Separated R xs s → Listed R xs s

mutual

/-- The text of a value. -/
inductive ValueText : Json → Text → Prop
  | bool {b : Bool} : ValueText (.bool b) (if b then "true".toList else "false".toList)
  | number {n : Nat} {s : Text} : NumeralText s n → ValueText (.number n) s
  | string {w t : Text} : Writes w t → ValueText (.string t) ('"' :: (w ++ ['"']))
  | array {items : List Json} {s : Text} : Listed PaddedText items s → ValueText (.array items) ('[' :: (s ++ [']']))
  | object {members : List (Text × Json)} {s : Text} : Listed FieldText members s →
      ValueText (.object members) ('{' :: (s ++ ['}']))

/-- The text of a value with blank space around it, if anything. -/
inductive PaddedText : Json → Text → Prop
  | mk {v : Json} {a s b : Text} : Blanks a → ValueText v s → Blanks b → PaddedText v (a ++ (s ++ b))

/-- The text of a member of an object. -/
inductive FieldText : Text × Json → Text → Prop
  | mk {key a w b s : Text} {v : Json} : Blanks a → Writes w key → Blanks b → PaddedText v s →
      FieldText (key, v) (a ++ '"' :: (w ++ '"' :: (b ++ ':' :: s)))

end

/-! ## Induction -/

/-- What holds of a value if it holds of its items and members holds of every value. -/
@[elab_as_elim]
theorem induction {P : Json → Prop} (bool : ∀ b, P (.bool b)) (number : ∀ n, P (.number n))
    (string : ∀ t, P (.string t)) (array : ∀ items, (∀ v ∈ items, P v) → P (.array items))
    (object : ∀ members, (∀ m ∈ members, P m.2) → P (.object members)) (v : Json) : P v :=
  match v with
  | .bool b => bool b
  | .number n => number n
  | .string t => string t
  | .array items => array items fun v hv =>
    have : sizeOf v < sizeOf (Json.array items) := Nat.lt_of_lt_of_le (List.sizeOf_lt_of_mem hv) (by simp)
    induction bool number string array object v
  | .object members => object members fun m hm =>
    have : sizeOf m.2 < sizeOf (Json.object members) := by
      have hmember := List.sizeOf_lt_of_mem hm
      have hvalue : sizeOf m = 1 + sizeOf m.1 + sizeOf m.2 := rfl
      simp only [Json.object.sizeOf_spec]
      omega
    induction bool number string array object m.2
termination_by sizeOf v
decreasing_by
  · exact this
  · exact this

/-! ## First characters -/

/-- A sort of values. -/
inductive Kind where
  | bool (b : Bool)
  | number
  | string
  | array
  | object

/-- The sort of a value. -/
def kind : Json → Kind
  | .bool b => .bool b
  | .number _ => .number
  | .string _ => .string
  | .array _ => .array
  | .object _ => .object

/-- The sort of values that a character is the first of. -/
def kindOf? (c : Char) : Option Kind :=
  if c = 't' then some (.bool true)
  else if c = 'f' then some (.bool false)
  else if c = '"' then some .string
  else if c = '[' then some .array
  else if c = '{' then some .object
  else if c.isDigit then some .number
  else none

theorem kindOf?_digit {c : Char} (h : c.isDigit = true) : kindOf? c = some .number := by
  have hne : ∀ d : Char, d.isDigit = false → c ≠ d := by
    rintro d hd rfl
    rw [h] at hd
    cases hd
  simp [kindOf?, h, hne 't' rfl, hne 'f' rfl, hne '"' rfl, hne '[' rfl, hne '{' rfl]

/-- The first character of a text tells the sort of its value. -/
theorem ValueText.exists_cons {v : Json} {s : Text} (h : ValueText v s) :
    ∃ c r, s = c :: r ∧ kindOf? c = some v.kind := by
  cases h with
  | bool =>
    rename_i b
    cases b <;> exact ⟨_, _, rfl, rfl⟩
  | number hs =>
    obtain ⟨c, r, rfl⟩ := List.exists_cons_of_ne_nil hs.ne_nil
    exact ⟨c, r, rfl, kindOf?_digit (hs.digits c List.mem_cons_self)⟩
  | string _ => exact ⟨_, _, rfl, rfl⟩
  | array _ => exact ⟨_, _, rfl, rfl⟩
  | object _ => exact ⟨_, _, rfl, rfl⟩

/-- Values whose texts start alike are of one sort. -/
theorem ValueText.kind_eq {v w : Json} {s t q r : Text} (hv : ValueText v s) (hw : ValueText w t)
    (h : s ++ q = t ++ r) : v.kind = w.kind := by
  obtain ⟨c, u, rfl, hc⟩ := hv.exists_cons
  obtain ⟨d, u', rfl, hd⟩ := hw.exists_cons
  rw [(List.cons.inj h).1, hd] at hc
  exact (Option.some.inj hc).symm

/-- What starts a value is not blank. -/
theorem isBlank_of_kindOf? {c : Char} {k : Kind} (h : kindOf? c = some k) : isBlank c = false := by
  refine Bool.eq_false_iff.2 fun hblank => ?_
  simp only [isBlank, Bool.or_eq_true, beq_iff_eq] at hblank
  rcases hblank with ((rfl | rfl) | rfl) | rfl <;> cases h

/-! ## Marks -/

/-- The marks that stand behind a value and its blank space. -/
inductive IsMark : Char → Prop
  | comma : IsMark ','
  | bracket : IsMark ']'
  | brace : IsMark '}'

theorem IsMark.not_isBlank {c : Char} (h : IsMark c) : isBlank c = false := by cases h <;> rfl

theorem IsMark.not_isDigit {c : Char} (h : IsMark c) : c.isDigit = false := by cases h <;> rfl

theorem IsMark.kindOf?_eq_none {c : Char} (h : IsMark c) : kindOf? c = none := by cases h <;> rfl

/-- Two texts that differ in the blank space at their front go on alike behind it. -/
theorem Blanks.append_inj {a b r s : Text} {c d : Char} (ha : Blanks a) (hb : Blanks b) (hc : isBlank c = false)
    (hd : isBlank d = false) (h : a ++ c :: r = b ++ d :: s) : c = d ∧ r = s := by
  have hdrop := congrArg (List.dropWhile isBlank) h
  rw [ha.dropWhile hc, hb.dropWhile hd] at hdrop
  exact List.cons.inj hdrop

/-! ## Telling texts apart -/

/-- No digit stands at the front. -/
def NoDigit (r : Text) : Prop := ∀ c ∈ r.head?, c.isDigit = false

/-- A text with a mark behind it is that of the thing and of nothing else, and ends at the mark. -/
def Told {α : Type} (R : α → Text → Prop) (x : α) : Prop :=
  ∀ ⦃y s t c d q r⦄, R x s → R y t → IsMark c → IsMark d → s ++ c :: q = t ++ d :: r → x = y ∧ c = d ∧ q = r

/-- Behind blank space no text starts with a mark. -/
def Starts {α : Type} (R : α → Text → Prop) : Prop :=
  ∀ ⦃x s⦄, R x s → ∃ a c r, Blanks a ∧ isBlank c = false ∧ ¬ IsMark c ∧ s = a ++ c :: r

section Lists

variable {α : Type} {R : α → Text → Prop} {xs ys : List α} {s t q r : Text} {c : Char}

theorem Separated.exists_cons (h : Separated R xs s) : ∃ x u v, R x u ∧ s = u ++ v := by
  cases h with
  | last hx => exact ⟨_, _, [], hx, (List.append_nil _).symm⟩
  | cons hx _ => exact ⟨_, _, _, hx, rfl⟩

/-- The mark behind the last thing is no comma, so it is found where the commas end. -/
theorem Separated.append_inj (hc : IsMark c) (hne : c ≠ ',') (hR : ∀ x ∈ xs, Told R x) (hs : Separated R xs s)
    (ht : Separated R ys t) (h : s ++ c :: q = t ++ c :: r) : xs = ys ∧ q = r := by
  induction hs generalizing ys t with
  | last hx =>
    have htold := hR _ List.mem_cons_self
    cases ht with
    | last hy =>
      obtain ⟨rfl, -, hqr⟩ := htold hx hy hc hc h
      exact ⟨rfl, hqr⟩
    | cons hy _ =>
      rw [List.append_assoc, List.cons_append] at h
      exact absurd (htold hx hy hc .comma h).2.1 hne
  | cons hx _ ih =>
    have htold := hR _ List.mem_cons_self
    rw [List.append_assoc, List.cons_append] at h
    cases ht with
    | last hy => exact absurd (htold hx hy .comma hc h).2.1.symm hne
    | cons hy hys =>
      rw [List.append_assoc, List.cons_append] at h
      obtain ⟨rfl, -, hrest⟩ := htold hx hy .comma .comma h
      obtain ⟨rfl, hqr⟩ := ih (fun x hx => hR x (List.mem_cons_of_mem _ hx)) hys hrest
      exact ⟨rfl, hqr⟩

/-- Nothing but blank space before the closing mark is not a list of things. -/
theorem Separated.ne_blanks (hc : IsMark c) (hstarts : Starts R) {b : Text} (hb : Blanks b) (hs : Separated R xs s) :
    b ++ c :: q ≠ s ++ c :: r := by
  intro h
  obtain ⟨x, u, v, hx, rfl⟩ := hs.exists_cons
  obtain ⟨a, d, w, ha, hd, hmark, rfl⟩ := hstarts hx
  rw [List.append_assoc, List.append_assoc, List.cons_append] at h
  exact hmark ((hb.append_inj ha hc.not_isBlank hd h).1 ▸ hc)

theorem Listed.append_inj (hc : IsMark c) (hne : c ≠ ',') (hstarts : Starts R) (hR : ∀ x ∈ xs, Told R x)
    (hs : Listed R xs s) (ht : Listed R ys t) (h : s ++ c :: q = t ++ c :: r) : xs = ys ∧ q = r := by
  cases hs with
  | none hb =>
    cases ht with
    | none hb' => exact ⟨rfl, (hb.append_inj hb' hc.not_isBlank hc.not_isBlank h).2⟩
    | some ht => exact absurd h (ht.ne_blanks hc hstarts hb)
  | some hs =>
    cases ht with
    | none hb' => exact absurd h.symm (hs.ne_blanks hc hstarts hb')
    | some ht => exact hs.append_inj hc hne hR ht h

end Lists

theorem starts_paddedText : Starts PaddedText := by
  rintro v _ ⟨ha, hv, -⟩
  obtain ⟨c, r, rfl, hkind⟩ := hv.exists_cons
  refine ⟨_, c, _, ha, isBlank_of_kindOf? hkind, fun hmark => ?_, rfl⟩
  rw [hmark.kindOf?_eq_none] at hkind
  cases hkind

theorem starts_fieldText : Starts FieldText := by
  rintro m _ ⟨ha, -, -, -⟩
  exact ⟨_, '"', _, ha, rfl, nofun, rfl⟩

/-- Strings that start alike end at the same quote. -/
theorem Writes.append_inj {w x t u q r : Text} (hw : Writes w t) (hx : Writes x u)
    (h : w ++ '"' :: q = x ++ '"' :: r) : t = u ∧ q = r := by
  have hread := readString_of_writes hw q
  rw [h, readString_of_writes hx r] at hread
  obtain ⟨ht, hq⟩ := Prod.mk.inj (Option.some.inj hread)
  exact ⟨ht.symm, hq.symm⟩

theorem NumeralText.append_inj {s t q r : Text} {m n : Nat} (hs : NumeralText s m) (ht : NumeralText t n)
    (hq : NoDigit q) (hr : NoDigit r) (h : s ++ q = t ++ r) : m = n ∧ q = r := by
  have hrun : IsRun Char.isDigit (s ++ q) s q := ⟨rfl, hs.digits, hq⟩
  have hrun' : IsRun Char.isDigit (s ++ q) t r := ⟨h, ht.digits, hr⟩
  obtain rfl : s = t := hrun.takeWhile_eq.symm.trans hrun'.takeWhile_eq
  exact ⟨hs.value.symm.trans ht.value, List.append_cancel_left h⟩

/-- Values are told apart if their texts are, whatever blank space stands around them. -/
theorem told_paddedText {v : Json} (h : ∀ ⦃w s t q r⦄, ValueText v s → ValueText w t → NoDigit q → NoDigit r →
    s ++ q = t ++ r → v = w ∧ q = r) : Told PaddedText v := by
  rintro w _ _ c d q r ⟨ha, hv, hb⟩ ⟨ha', hw, hb'⟩ hc hd heq
  rename_i a s b a' s' b'
  have hend : ∀ {b : Text} {c : Char} {q : Text}, Blanks b → IsMark c → NoDigit (b ++ c :: q) := by
    intro b c q hb hc
    cases b with
    | nil => rintro _ ⟨⟩; exact hc.not_isDigit
    | cons x b =>
      rintro _ ⟨⟩
      have hx := hb x List.mem_cons_self
      simp only [isBlank, Bool.or_eq_true, beq_iff_eq] at hx
      rcases hx with ((rfl | rfl) | rfl) | rfl <;> rfl
  have hvalues : s ++ (b ++ c :: q) = s' ++ (b' ++ d :: r) := by
    obtain ⟨x, u, rfl, hx⟩ := hv.exists_cons
    obtain ⟨y, u', rfl, hy⟩ := hw.exists_cons
    simp only [List.append_assoc, List.cons_append] at heq
    obtain ⟨rfl, hrest⟩ := ha.append_inj ha' (isBlank_of_kindOf? hx) (isBlank_of_kindOf? hy) heq
    rw [List.cons_append, List.cons_append, hrest]
  obtain ⟨rfl, hrest⟩ := h hv hw (hend hb hc) (hend hb' hd) hvalues
  exact ⟨rfl, hb.append_inj hb' hc.not_isBlank hd.not_isBlank hrest⟩

/-- Members are told apart if their values are. -/
theorem told_fieldText {m : Text × Json} (h : Told PaddedText m.2) : Told FieldText m := by
  rintro n _ _ c d q r ⟨ha, hw, hb, hv⟩ ⟨ha', hw', hb', hv'⟩ hc hd heq
  simp only [List.append_assoc, List.cons_append] at heq
  obtain ⟨-, hkeys⟩ := ha.append_inj ha' rfl rfl heq
  obtain ⟨rfl, hcolons⟩ := hw.append_inj hw' hkeys
  obtain ⟨-, hvalues⟩ := hb.append_inj hb' rfl rfl hcolons
  obtain ⟨rfl, hrest⟩ := h hv hv' hc hd hvalues
  exact ⟨rfl, hrest⟩

/-- A text without a digit behind it is that of one value at most, and ends in one place. -/
theorem ValueText.append_inj {v w : Json} {s t q r : Text} (hv : ValueText v s) (hw : ValueText w t) (hq : NoDigit q)
    (hr : NoDigit r) (h : s ++ q = t ++ r) : v = w ∧ q = r := by
  have hkind := hv.kind_eq hw h
  induction v using Json.induction generalizing w s t q r with
  | bool b =>
    cases w with
    | bool b' =>
      obtain rfl : b = b' := Kind.bool.inj hkind
      cases hv
      cases hw
      exact ⟨rfl, List.append_cancel_left h⟩
    | _ => cases hkind
  | number n =>
    cases w with
    | number n' =>
      cases hv with | number hs =>
      cases hw with | number ht =>
      obtain ⟨rfl, hrest⟩ := hs.append_inj ht hq hr h
      exact ⟨rfl, hrest⟩
    | _ => cases hkind
  | string x =>
    cases w with
    | string y =>
      cases hv with | string hx =>
      cases hw with | string hy =>
      simp only [List.cons_append, List.append_assoc, List.nil_append, List.cons.injEq, true_and] at h
      obtain ⟨rfl, hrest⟩ := hx.append_inj hy h
      exact ⟨rfl, hrest⟩
    | _ => cases hkind
  | array items ih =>
    cases w with
    | array items' =>
      cases hv with | array hs =>
      cases hw with | array ht =>
      simp only [List.cons_append, List.append_assoc, List.nil_append, List.cons.injEq, true_and] at h
      have htold : ∀ x ∈ items, Told PaddedText x := fun x hx =>
        told_paddedText fun _ _ _ _ _ hv hw hq hr h => ih x hx hv hw hq hr h (hv.kind_eq hw h)
      obtain ⟨rfl, hrest⟩ := hs.append_inj .bracket (by decide) starts_paddedText htold ht h
      exact ⟨rfl, hrest⟩
    | _ => cases hkind
  | object members ih =>
    cases w with
    | object members' =>
      cases hv with | object hs =>
      cases hw with | object ht =>
      simp only [List.cons_append, List.append_assoc, List.nil_append, List.cons.injEq, true_and] at h
      have htold : ∀ m ∈ members, Told FieldText m := fun m hm => told_fieldText <|
        told_paddedText fun _ _ _ _ _ hv hw hq hr h => ih m hm hv hw hq hr h (hv.kind_eq hw h)
      obtain ⟨rfl, hrest⟩ := hs.append_inj .brace (by decide) starts_fieldText htold ht h
      exact ⟨rfl, hrest⟩
    | _ => cases hkind

/-- A text is that of one value at most, whatever blank space stands around it. -/
theorem PaddedText.unique {v w : Json} {s : Text} (hv : PaddedText v s) (hw : PaddedText w s) : v = w := by
  have htold : Told PaddedText v := told_paddedText fun _ _ _ _ _ hv hw hq hr h => hv.append_inj hw hq hr h
  exact (htold hv hw .comma .comma (q := []) (r := []) rfl).1

/-! ## What is written for a value -/

/-- Only zero is written with a zero at the front. -/
theorem eq_zero_of_head?_ofNat {n : Nat} (h : (Text.ofNat n).head? = some '0') : n = 0 := by
  induction n using Nat.strongRecOn with
  | ind n ih =>
    rw [Text.ofNat] at h
    by_cases hn : n < 10
    · have hdigit : ∀ m < 10, m.digitChar = '0' → m = 0 := by decide
      rw [Nat.toDigits_of_lt_base hn] at h
      exact hdigit n hn (Option.some.inj h)
    · rw [Nat.toDigits_of_base_le (by decide) (by omega)] at h
      have hfront : (Nat.toDigits 10 (n / 10)).head? = some '0' := by
        obtain ⟨c, r, hr⟩ := List.exists_cons_of_ne_nil (Nat.toDigits_ne_nil (n := n / 10) (b := 10))
        rw [hr] at h ⊢
        exact h
      have hzero := ih (n / 10) (by omega) hfront
      omega

theorem numeralText_ofNat (n : Nat) : NumeralText (.ofNat n) n where
  digits _ := Nat.isDigit_of_mem_toDigits (by decide) (by decide)
  ne_nil := Nat.toDigits_ne_nil
  front h := by rw [eq_zero_of_head?_ofNat h]; rfl
  value := Nat.ofDigitChars_ten_toDigits

theorem ValueText.padded {v : Json} {s : Text} (h : ValueText v s) : PaddedText v s := by
  simpa using PaddedText.mk blanks_nil h blanks_nil

theorem valueText_bool (b : Bool) : ValueText (.bool b) (boolText b) := by cases b <;> exact .bool

/-- A string between its quotes. -/
theorem valueText_quote (t : Text) : ValueText (.string t) (quote t) := .string (writes_escaped t)

/-- A key and a value as they are written, with blank space before each and behind both. -/
theorem fieldText_quote {a b c s : Text} {v : Json} (key : Text) (ha : Blanks a) (hb : Blanks b) (hv : ValueText v s)
    (hc : Blanks c) : FieldText (key, v) (a ++ quote key ++ ':' :: (b ++ s) ++ c) := by
  have hfield := FieldText.mk ha (writes_escaped key) blanks_nil (.mk hb hv hc)
  simpa [quote] using hfield

/-- A function that writes things one after the other with commas between them writes a list of them, also with blank
space behind the last. -/
theorem listed_of_joined {α : Type} {R : α → Text → Prop} {write : List α → Text} {f : α → Text}
    (hnil : write [] = []) (hone : ∀ x, write [x] = f x)
    (hcons : ∀ x y ys, write (x :: y :: ys) = f x ++ ',' :: write (y :: ys)) {xs : List α}
    (hR : ∀ x ∈ xs, ∀ c, Blanks c → R x (f x ++ c)) {b : Text} (hb : Blanks b) : Listed R xs (write xs ++ b) := by
  cases xs with
  | nil =>
    rw [hnil]
    exact .none hb
  | cons x xs =>
    refine .some ?_
    induction xs generalizing x with
    | nil =>
      rw [hone]
      exact .last (hR x List.mem_cons_self b hb)
    | cons y ys ih =>
      have hfirst := hR x List.mem_cons_self [] blanks_nil
      rw [List.append_nil] at hfirst
      rw [hcons, List.append_assoc]
      exact .cons hfirst (ih y fun z hz => hR z (List.mem_cons_of_mem x hz))

/-- What is written for a value without blank space is a text of it. -/
theorem valueText_compact (v : Json) : ValueText v v.compact := by
  induction v using Json.induction with
  | bool b => exact valueText_bool b
  | number n => exact .number (numeralText_ofNat n)
  | string t => exact valueText_quote t
  | array items ih =>
    have hitems : Listed PaddedText items (compactItems items ++ []) :=
      listed_of_joined (f := compact) rfl (fun _ => by rw [compactItems])
        (fun _ _ _ => by rw [compactItems]; simp) (fun v hv _ hc => .mk blanks_nil (ih v hv) hc) blanks_nil
    rw [List.append_nil] at hitems
    exact .array hitems
  | object members ih =>
    have hmembers : Listed FieldText members (compactMembers members ++ []) :=
      listed_of_joined (f := fun m => quote m.1 ++ ':' :: m.2.compact) rfl
        (fun _ => by rw [compactMembers]) (fun _ _ _ => by simp [compactMembers])
        (fun m hm _ hc => fieldText_quote m.1 blanks_nil blanks_nil (ih m hm) hc) blanks_nil
    rw [List.append_nil] at hmembers
    exact .object hmembers

theorem blanks_lineStart (level : Nat) : Blanks (lineStart level) := by
  intro c hc
  rcases List.mem_cons.1 hc with rfl | hc
  · rfl
  · rw [List.eq_of_mem_replicate hc]
    rfl

/-- What is written for a value over several lines is a text of it, whatever the level. -/
theorem valueText_prettyAt (v : Json) (level : Nat) : ValueText v (v.prettyAt level) := by
  induction v using Json.induction generalizing level with
  | bool b => exact valueText_bool b
  | number n => exact .number (numeralText_ofNat n)
  | string t => exact valueText_quote t
  | array items ih =>
    have hitems : Listed PaddedText items (prettyItems (level + 1) items ++ lineStart level) :=
      listed_of_joined (f := fun v => lineStart (level + 1) ++ v.prettyAt (level + 1)) rfl
        (fun _ => by rw [prettyItems]) (fun _ _ _ => by simp [prettyItems])
        (fun v hv _ hc => by
          rw [List.append_assoc]
          exact .mk (blanks_lineStart _) (ih v hv _) hc)
        (blanks_lineStart level)
    cases items with
    | nil => exact .array (.none blanks_nil)
    | cons v vs => exact .array hitems
  | object members ih =>
    have hspace : Blanks [' '] := List.forall_mem_singleton.2 rfl
    have hmembers : Listed FieldText members (prettyMembers (level + 1) members ++ lineStart level) :=
      listed_of_joined
        (f := fun m => lineStart (level + 1) ++ quote m.1 ++ ':' :: ([' '] ++ m.2.prettyAt (level + 1))) rfl
        (fun _ => by simp [prettyMembers]) (fun _ _ _ => by simp [prettyMembers])
        (fun m hm _ hc => fieldText_quote m.1 (blanks_lineStart _) hspace (ih m hm _) hc) (blanks_lineStart level)
    cases members with
    | nil => exact .object (.none blanks_nil)
    | cons m ms => exact .object hmembers

/-- What is printed for a value, on lines of its own, is the text of that value and of no other. -/
theorem paddedText_pretty_iff {v w : Json} : PaddedText w (v.pretty ++ ['\n']) ↔ w = v := by
  have hnewline : Blanks ['\n'] := List.forall_mem_singleton.2 rfl
  have hprinted : PaddedText v (v.pretty ++ ['\n']) := .mk blanks_nil (valueText_prettyAt v 0) hnewline
  exact ⟨fun h => h.unique hprinted, fun h => h ▸ hprinted⟩

/-! ## Objects of strings -/

/-- An object whose members are strings. -/
def ofStrings (ms : List (Text × Text)) : Json := .object (ms.map fun (k, v) => (k, .string v))

theorem fieldText_of_memberText {m : Text × Text} {s b : Text} (h : MemberText m s) (hb : Blanks b) :
    FieldText (m.1, .string m.2) (s ++ b) := by
  obtain ⟨ha, hkey, hc, hd, hvalue⟩ := h
  have hfield := FieldText.mk ha hkey hc (.mk hd (.string hvalue) hb)
  simpa using hfield

theorem exists_memberText_of_fieldText {m : Text × Text} {s : Text} (h : FieldText (m.1, .string m.2) s) :
    ∃ u b, MemberText m u ∧ Blanks b ∧ s = u ++ b := by
  obtain ⟨k, t⟩ := m
  cases h with | mk ha hkey hc hpadded =>
  cases hpadded with | mk hd hstring hb =>
  cases hstring with | string hvalue =>
  exact ⟨_, _, .mk ha hkey hc hd hvalue, hb, by simp⟩

theorem separated_of_membersText {ms : List (Text × Text)} {s : Text} (h : MembersText ms s) :
    Separated FieldText (ms.map fun (k, v) => (k, .string v)) s := by
  induction h with
  | last hm hb => exact .last (fieldText_of_memberText hm hb)
  | cons hm hb _ ih =>
    rw [← List.append_assoc]
    exact .cons (fieldText_of_memberText hm hb) ih

theorem membersText_of_separated {ms : List (Text × Text)} {s : Text}
    (h : Separated FieldText (ms.map fun (k, v) => (k, .string v)) s) : MembersText ms s := by
  induction ms generalizing s with
  | nil => cases h
  | cons m ms ih =>
    cases ms with
    | nil =>
      cases h with
      | last hm =>
        obtain ⟨u, b, hu, hb, rfl⟩ := exists_memberText_of_fieldText hm
        exact .last hu hb
      | cons _ hrest => cases hrest
    | cons m' ms =>
      cases h with | cons hm hrest =>
      obtain ⟨u, b, hu, hb, rfl⟩ := exists_memberText_of_fieldText hm
      rw [List.append_assoc]
      exact .cons hu hb (ih hrest)

/-- The texts of objects of strings are texts of values like others. -/
theorem objectText_iff {ms : List (Text × Text)} {s : Text} : ObjectText ms s ↔ PaddedText (ofStrings ms) s := by
  constructor
  · intro h
    cases h with
    | empty ha hb hc =>
      have hpadded := PaddedText.mk ha (.object (.none hb)) hc
      simpa [ofStrings] using hpadded
    | members ha hs hc =>
      have hpadded := PaddedText.mk ha (.object (.some (separated_of_membersText hs))) hc
      simpa [ofStrings] using hpadded
  · intro h
    cases h with | mk ha hobject hc =>
    cases hobject with | object hlisted =>
    generalize hms : (ms.map fun (k, v) => (k, Json.string v)) = members at hlisted
    cases hlisted with
    | none hb =>
      obtain rfl := List.map_eq_nil_iff.1 hms
      have hobject := ObjectText.empty ha hb hc
      simpa using hobject
    | some hs =>
      have hobject := ObjectText.members ha (membersText_of_separated (hms ▸ hs)) hc
      simpa using hobject

end TextTemplate.Json

import TextTemplate.Json.Reader
import TextTemplate.Proofs.Text.Lexemes

/-!
# The texts of objects of strings

A string may be written in many ways: a character stands for itself or is escaped, by a letter, by the four digits of its
code or by those of its two halves. Blank space may stand between the marks of an object. The reader accepts all of these
texts and no others, with the members in the order in which they stand in the text. What is written for a string,
compactly or not, is one of them.

Main results:
* `readEscape_eq_some_iff`, `readString_eq_some_iff`: strings and their escapes.
* `readMember_eq_some_iff`, `readMembers_eq_some_iff`: members.
* `stringMembers?_eq_some_iff`: the text of an object is read exactly where one stands.
* `writes_escaped`: what is written for a string.
-/

namespace TextTemplate.Json

/-! ## Specification -/

/-- Four digits of base sixteen are written for the number. -/
inductive UnitText : Text → Nat → Prop
  | digits {a b c d : Char} {h i j k : Nat} : hexValue? a = some h → hexValue? b = some i →
      hexValue? c = some j → hexValue? d = some k → UnitText [a, b, c, d] (((h * 16 + i) * 16 + j) * 16 + k)

/-- Behind a backslash, the text is written for the character. -/
inductive EscapeText : Text → Char → Prop
  | mark {c d : Char} : unescape? c = some d → EscapeText [c] d
  | unit {u : Text} {n : Nat} : UnitText u n → isHighHalf n = false → isLowHalf n = false →
      EscapeText ('u' :: u) (Char.ofNat n)
  | halves {u v : Text} {m n : Nat} : UnitText u m → isHighHalf m = true → UnitText v n →
      isLowHalf n = true → EscapeText ('u' :: (u ++ '\\' :: 'u' :: v)) (ofHalves m n)

/-- Between its quotes, the first text is written for the second. -/
inductive Writes : Text → Text → Prop
  | nil : Writes [] []
  | raw {c : Char} {w t : Text} : ' ' ≤ c → c ≠ '"' → c ≠ '\\' → Writes w t → Writes (c :: w) (c :: t)
  | escape {e w t : Text} {c : Char} : EscapeText e c → Writes w t → Writes ('\\' :: (e ++ w)) (c :: t)

/-- Blank space, if anything. -/
def Blanks (s : Text) : Prop := ∀ c ∈ s, isBlank c = true

/-- The text of a member: its key and its value, with blank space before the marks. -/
inductive MemberText : Text × Text → Text → Prop
  | mk {a b c v w key value : Text} : Blanks a → Writes v key → Blanks b → Blanks c → Writes w value →
      MemberText (key, value) (a ++ '"' :: (v ++ '"' :: (b ++ ':' :: (c ++ '"' :: (w ++ ['"'])))))

/-- The text of members, one at least, with commas between them. -/
inductive MembersText : List (Text × Text) → Text → Prop
  | last {m : Text × Text} {s b : Text} : MemberText m s → Blanks b → MembersText [m] (s ++ b)
  | cons {m : Text × Text} {ms : List (Text × Text)} {s b r : Text} : MemberText m s → Blanks b →
      MembersText ms r → MembersText (m :: ms) (s ++ (b ++ ',' :: r))

/-- The text of an object of strings, with its members in order. -/
inductive ObjectText : List (Text × Text) → Text → Prop
  | empty {a b c : Text} : Blanks a → Blanks b → Blanks c → ObjectText [] (a ++ '{' :: (b ++ '}' :: c))
  | members {a s c : Text} {ms : List (Text × Text)} : Blanks a → MembersText ms s → Blanks c →
      ObjectText ms (a ++ '{' :: (s ++ '}' :: c))

/-! ## Escapes -/

theorem readUnit_of_unitText {u : Text} {n : Nat} (h : UnitText u n) (r : Text) :
    readUnit (u ++ r) = some (n, r) := by
  cases h with
  | digits ha hb hc hd => simp [readUnit, ha, hb, hc, hd]

theorem readUnit_eq_some_iff {s r : Text} {n : Nat} :
    readUnit s = some (n, r) ↔ ∃ u, UnitText u n ∧ s = u ++ r := by
  constructor
  · intro h
    unfold readUnit at h
    split at h
    · simp only [Option.bind_eq_bind, Option.bind_eq_some_iff, Option.some.injEq, Prod.mk.injEq] at h
      obtain ⟨_, ha, _, hb, _, hc, _, hd, rfl, rfl⟩ := h
      exact ⟨_, .digits ha hb hc hd, rfl⟩
    · cases h
  · rintro ⟨u, hu, rfl⟩
    exact readUnit_of_unitText hu r

theorem readEscape_of_escapeText {e : Text} {c : Char} (h : EscapeText e c) (r : Text) :
    readEscape (e ++ r) = some (c, r) := by
  cases h with
  | mark hc =>
    rename_i d
    have hne : d ≠ 'u' := by
      rintro rfl
      cases hc
    rw [List.singleton_append, readEscape, hc]
    · rfl
    · exact hne
  | unit hu hhigh hlow =>
    rw [List.cons_append, readEscape, readUnit_of_unitText hu]
    simp [hhigh, hlow]
  | halves hu hhigh hv hlow =>
    rw [List.cons_append, List.append_assoc, readEscape, readUnit_of_unitText hu]
    simp [hhigh, readUnit_of_unitText hv, hlow]

/-- An escape is read exactly where one stands. -/
theorem readEscape_eq_some_iff {s r : Text} {c : Char} :
    readEscape s = some (c, r) ↔ ∃ e, EscapeText e c ∧ s = e ++ r := by
  constructor
  · intro h
    unfold readEscape at h
    split at h
    · obtain ⟨⟨m, u⟩, hm, hu⟩ := Option.bind_eq_some_iff.1 h
      obtain ⟨x, hx, hsplit⟩ := readUnit_eq_some_iff.1 hm
      rw [hsplit]
      simp only at hu
      split_ifs at hu with hhigh hlow
      · split at hu
        · obtain ⟨⟨n, v⟩, hn, hv⟩ := Option.bind_eq_some_iff.1 hu
          obtain ⟨y, hy, rfl⟩ := readUnit_eq_some_iff.1 hn
          simp only at hv
          split_ifs at hv with hlow
          obtain ⟨rfl, rfl⟩ := Prod.mk.inj (Option.some.inj hv)
          exact ⟨_, .halves hx hhigh hy hlow, by simp⟩
        · cases hu
      · cases hu
        exact ⟨_, .unit hx (Bool.eq_false_iff.2 hhigh) (Bool.eq_false_iff.2 hlow), rfl⟩
    · obtain ⟨d, hd, h⟩ := Option.map_eq_some_iff.1 h
      cases h
      exact ⟨_, .mark hd, rfl⟩
    · cases h
  · rintro ⟨e, he, rfl⟩
    exact readEscape_of_escapeText he r

/-! ## Strings -/

theorem writes_of_readString {s t r : Text} (h : readString s = some (t, r)) :
    ∃ w, Writes w t ∧ s = w ++ '"' :: r := by
  fun_induction readString s generalizing t with
  | case1 => cases h
  | case2 => cases h; exact ⟨[], .nil, rfl⟩
  | case3 => cases h
  | case4 u d v he _ ih =>
    obtain ⟨⟨t', x⟩, k, e⟩ := Option.map_eq_some_iff.1 h
    cases e
    obtain ⟨w, hw, rfl⟩ := ih k
    obtain ⟨e, hescape, rfl⟩ := readEscape_eq_some_iff.1 he
    exact ⟨'\\' :: (e ++ w), .escape hescape hw, by simp⟩
  | case5 => cases h
  | case6 c u hq hb hl ih =>
    obtain ⟨⟨t', x⟩, k, e⟩ := Option.map_eq_some_iff.1 h
    cases e
    obtain ⟨w, hw, rfl⟩ := ih k
    exact ⟨c :: w, .raw (Char.not_lt.1 hl) hq hb hw, rfl⟩

theorem readString_of_writes {w t : Text} (h : Writes w t) (r : Text) :
    readString (w ++ '"' :: r) = some (t, r) := by
  induction h with
  | nil => simp [readString]
  | raw hc hq hb _ ih =>
    rw [List.cons_append, readString, if_neg hq, if_neg hb, if_neg (Char.not_lt.2 hc), ih]
    rfl
  | escape he _ ih =>
    have hread := readEscape_of_escapeText he
    rw [List.cons_append, List.append_assoc, readString, if_neg (by decide), if_pos rfl]
    split
    · rename_i hnone; rw [hread] at hnone; cases hnone
    · rename_i hsome
      rw [hread] at hsome
      cases hsome
      rw [ih]
      rfl

/-- Behind its opening quote a string is read exactly where something is written for it, with the closing quote
    after it. -/
theorem readString_eq_some_iff {s t r : Text} :
    readString s = some (t, r) ↔ ∃ w, Writes w t ∧ s = w ++ '"' :: r := by
  constructor
  · exact writes_of_readString
  · rintro ⟨w, hw, rfl⟩
    exact readString_of_writes hw r

/-! ## Marks and members -/

theorem blanks_nil : Blanks [] := by
  intro c hc
  cases hc

/-- Blank space is skipped up to a mark. -/
theorem Blanks.dropWhile {b : Text} (hb : Blanks b) {c : Char} (hc : isBlank c = false) (r : Text) :
    (b ++ c :: r).dropWhile isBlank = c :: r := by
  have hrun : IsRun isBlank (b ++ c :: r) b (c :: r) := ⟨rfl, hb, by rintro _ ⟨⟩; exact hc⟩
  exact hrun.dropWhile_eq

/-- A text is the blank space at its front and the rest. -/
theorem exists_blanks (s : Text) : ∃ b, Blanks b ∧ s = b ++ s.dropWhile isBlank :=
  ⟨_, (isRun_takeWhile isBlank s).all, (isRun_takeWhile isBlank s).split⟩

theorem readMark_eq_some_iff {c : Char} (hc : isBlank c = false) {s r : Text} :
    readMark c s = some r ↔ ∃ b, Blanks b ∧ s = b ++ c :: r := by
  constructor
  · intro h
    obtain ⟨b, hb, hs⟩ := exists_blanks s
    unfold readMark at h
    split at h
    · cases h
    · rename_i d u hd
      split_ifs at h with hdc
      cases h
      rw [hd, hdc] at hs
      exact ⟨b, hb, hs⟩
  · rintro ⟨b, hb, rfl⟩
    unfold readMark
    rw [hb.dropWhile hc]
    simp

theorem readMember_eq_some_iff {s r : Text} {m : Text × Text} :
    readMember s = some (m, r) ↔ ∃ w, MemberText m w ∧ s = w ++ r := by
  have hquote : isBlank '"' = false := by decide
  have hcolon : isBlank ':' = false := by decide
  simp only [readMember, Option.bind_eq_bind, Option.bind_eq_some_iff, Prod.exists, Option.some.injEq,
    Prod.mk.injEq, readMark_eq_some_iff hquote, readMark_eq_some_iff hcolon, readString_eq_some_iff]
  constructor
  · rintro ⟨_, ⟨a, ha, rfl⟩, key, _, ⟨v, hv, rfl⟩, _, ⟨b, hb, rfl⟩, _, ⟨c, hc, rfl⟩, value, _, ⟨w, hw, rfl⟩, rfl,
      rfl⟩
    exact ⟨_, .mk ha hv hb hc hw, by simp⟩
  · rintro ⟨_, ⟨ha, hv, hb, hc, hw⟩, rfl⟩
    simp only [List.append_assoc, List.cons_append, List.nil_append]
    exact ⟨_, ⟨_, ha, rfl⟩, _, _, ⟨_, hv, rfl⟩, _, ⟨_, hb, rfl⟩, _, ⟨_, hc, rfl⟩, _, _, ⟨_, hw, rfl⟩, rfl, rfl⟩

theorem readMembers_of_membersText {ms : List (Text × Text)} {w : Text} (h : MembersText ms w) (r : Text) :
    readMembers (w ++ '}' :: r) = some (ms, r) := by
  induction h with
  | last hm hb =>
    rename_i m s b
    have hread : readMember (s ++ b ++ '}' :: r) = some (m, b ++ '}' :: r) :=
      readMember_eq_some_iff.2 ⟨s, hm, List.append_assoc _ _ _⟩
    unfold readMembers
    split
    · rename_i hnone; rw [hread] at hnone; cases hnone
    · rename_i hsome
      rw [hread] at hsome
      cases hsome
      rw [hb.dropWhile (by decide)]
      rfl
  | cons hm hb _ ih =>
    rename_i m ms s b u _
    have hread : readMember (s ++ (b ++ ',' :: u) ++ '}' :: r) = some (m, b ++ ',' :: (u ++ '}' :: r)) :=
      readMember_eq_some_iff.2 ⟨s, hm, by simp⟩
    unfold readMembers
    split
    · rename_i hnone; rw [hread] at hnone; cases hnone
    · rename_i hsome
      rw [hread] at hsome
      cases hsome
      rw [hb.dropWhile (by decide)]
      simp [ih]

theorem membersText_of_readMembers {s r : Text} {ms : List (Text × Text)} (h : readMembers s = some (ms, r)) :
    ∃ w, MembersText ms w ∧ s = w ++ '}' :: r := by
  fun_induction readMembers s generalizing ms with
  | case1 => cases h
  | case2 s m u hm v hv =>
    cases h
    obtain ⟨w, hw, rfl⟩ := readMember_eq_some_iff.1 hm
    obtain ⟨b, hb, hu⟩ := exists_blanks u
    rw [hv] at hu
    exact ⟨w ++ b, .last hw hb, by rw [hu]; simp⟩
  | case3 s m u hm v hv ih =>
    obtain ⟨⟨ms', x⟩, k, e⟩ := Option.map_eq_some_iff.1 h
    cases e
    obtain ⟨w', hw', rfl⟩ := ih k
    obtain ⟨w, hw, rfl⟩ := readMember_eq_some_iff.1 hm
    obtain ⟨b, hb, hu⟩ := exists_blanks u
    rw [hv] at hu
    exact ⟨w ++ (b ++ ',' :: w'), .cons hw hb hw', by rw [hu]; simp⟩
  | case4 => cases h

/-- Members are read exactly where they stand, with a closing brace after them. -/
theorem readMembers_eq_some_iff {s r : Text} {ms : List (Text × Text)} :
    readMembers s = some (ms, r) ↔ ∃ w, MembersText ms w ∧ s = w ++ '}' :: r := by
  constructor
  · exact membersText_of_readMembers
  · rintro ⟨w, hw, rfl⟩
    exact readMembers_of_membersText hw r

/-! ## Objects -/

/-- Members start with a quote, behind blank space. -/
theorem MembersText.dropWhile {ms : List (Text × Text)} {w : Text} (h : MembersText ms w) (r : Text) :
    ∃ u, (w ++ r).dropWhile isBlank = '"' :: u := by
  obtain ⟨m, s, x, hm, rfl⟩ : ∃ m s x, MemberText m s ∧ w = s ++ x := by
    cases h with
    | last hm _ => exact ⟨_, _, _, hm, rfl⟩
    | cons hm _ _ => exact ⟨_, _, _, hm, rfl⟩
  obtain ⟨ha, -, -, -, -⟩ := hm
  rw [List.append_assoc, List.append_assoc, List.cons_append, ha.dropWhile (by decide)]
  exact ⟨_, rfl⟩

theorem readFields_eq_some_iff {s r : Text} {ms : List (Text × Text)} :
    readFields s = some (ms, r) ↔
      (ms = [] ∧ ∃ b, Blanks b ∧ s = b ++ '}' :: r) ∨ ∃ w, MembersText ms w ∧ s = w ++ '}' :: r := by
  constructor
  · intro h
    unfold readFields at h
    split at h
    · rename_i u hu
      cases h
      obtain ⟨b, hb, hs⟩ := exists_blanks s
      rw [hu] at hs
      exact .inl ⟨rfl, b, hb, hs⟩
    · exact .inr (readMembers_eq_some_iff.1 h)
  · rintro (⟨rfl, b, hb, rfl⟩ | ⟨w, hw, rfl⟩)
    · unfold readFields
      rw [hb.dropWhile (by decide)]
      rfl
    · obtain ⟨u, hu⟩ := hw.dropWhile ('}' :: r)
      unfold readFields
      rw [hu]
      exact readMembers_of_membersText hw r

/-- An object of strings is read exactly where a text consists of one, with its members in order. -/
theorem stringMembers?_eq_some_iff {s : Text} {ms : List (Text × Text)} :
    stringMembers? s = some ms ↔ ObjectText ms s := by
  have hopen : isBlank '{' = false := by decide
  simp only [stringMembers?, Option.bind_eq_bind, Option.bind_eq_some_iff, Prod.exists,
    readMark_eq_some_iff hopen, readFields_eq_some_iff]
  constructor
  · rintro ⟨_, ⟨a, ha, rfl⟩, ms', r, hfields, hr⟩
    split_ifs at hr with hend
    cases hr
    have hblanks : Blanks r := List.dropWhile_eq_nil_iff.1 hend
    rcases hfields with ⟨rfl, b, hb, rfl⟩ | ⟨w, hw, rfl⟩
    · exact .empty ha hb hblanks
    · exact .members ha hw hblanks
  · rintro (⟨ha, hb, hc⟩ | ⟨ha, hw, hc⟩)
    · exact ⟨_, ⟨_, ha, rfl⟩, _, _, .inl ⟨rfl, _, hb, rfl⟩, if_pos (List.dropWhile_eq_nil_iff.2 hc)⟩
    · exact ⟨_, ⟨_, ha, rfl⟩, _, _, .inr ⟨_, hw, rfl⟩, if_pos (List.dropWhile_eq_nil_iff.2 hc)⟩

/-- A text is that of one object at most. -/
theorem ObjectText.unique {ms ms' : List (Text × Text)} {s : Text} (h : ObjectText ms s) (h' : ObjectText ms' s) :
    ms = ms' := by
  have hread := stringMembers?_eq_some_iff.2 h
  rw [stringMembers?_eq_some_iff.2 h'] at hread
  exact (Option.some.inj hread).symm

/-- Blank space may follow an object. -/
theorem ObjectText.append_blanks {ms : List (Text × Text)} {s b : Text} (h : ObjectText ms s) (hb : Blanks b) :
    ObjectText ms (s ++ b) := by
  cases h with
  | empty ha hc hd =>
    have hend := ObjectText.empty ha hc (List.forall_mem_append.2 ⟨hd, hb⟩)
    simpa using hend
  | members ha hw hd =>
    have hend := ObjectText.members ha hw (List.forall_mem_append.2 ⟨hd, hb⟩)
    simpa using hend

/-! ## What is written for a string -/

theorem hexValue?_hexDigit {n : Nat} (h : n < 16) : hexValue? (hexDigit n) = some n := by
  have hall : ∀ m < 16, hexValue? (hexDigit m) = some m := by decide
  exact hall n h

/-- A control character may be written by its code. -/
theorem escapeText_code {c : Char} (hc : c < ' ') :
    EscapeText ['u', '0', '0', hexDigit (c.toNat / 16), hexDigit (c.toNat % 16)] c := by
  have hlt : c.toNat < 32 := hc
  have hunit : UnitText ['0', '0', hexDigit (c.toNat / 16), hexDigit (c.toNat % 16)] c.toNat := by
    have hzero : hexValue? '0' = some 0 := rfl
    have hfirst : c.toNat / 16 < 16 := by omega
    have hsecond : c.toNat % 16 < 16 := by omega
    have hcode := UnitText.digits hzero hzero (hexValue?_hexDigit hfirst) (hexValue?_hexDigit hsecond)
    have hsum : ((0 * 16 + 0) * 16 + c.toNat / 16) * 16 + c.toNat % 16 = c.toNat := by omega
    rwa [hsum] at hcode
  have hhigh : isHighHalf c.toNat = false := by simp [isHighHalf]; omega
  have hlow : isLowHalf c.toNat = false := by simp [isLowHalf]; omega
  have hescape := EscapeText.unit hunit hhigh hlow
  rwa [Char.ofNat_toNat] at hescape

theorem Writes.escape_append {w t : Text} (h : Writes w t) (c : Char) : Writes (Json.escape c ++ w) (c :: t) := by
  unfold Json.escape
  split_ifs with hquote hback hb hf hn hr ht hcontrol
  · subst hquote; exact .escape (.mark rfl) h
  · subst hback; exact .escape (.mark rfl) h
  · subst hb; exact .escape (.mark rfl) h
  · subst hf; exact .escape (.mark rfl) h
  · subst hn; exact .escape (.mark rfl) h
  · subst hr; exact .escape (.mark rfl) h
  · subst ht; exact .escape (.mark rfl) h
  · exact .escape (escapeText_code hcontrol) h
  · exact .raw (Char.not_lt.1 hcontrol) hquote hback h

/-- A string is written between its quotes character by character. -/
theorem writes_escaped (t : Text) : Writes (t.flatMap Json.escape) t := by
  induction t with
  | nil => exact .nil
  | cons c t ih => exact ih.escape_append c

end TextTemplate.Json

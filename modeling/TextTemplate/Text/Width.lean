import TextTemplate.Text
import TextTemplate.Text.WidthRanges

/-!
# Display width

The columns that a text takes on a terminal: two for each wide character, none for each that extends the one
before it, and one for every other, control characters included. Some characters change their width together
with what stands to their right: a variation selector shows an emoji as a picture or as text, skin tones and
joiners tie emoji to a single picture, and letters of some scripts join to a ligature. So a text is read from
its end, and of the part that is read only its columns and the sequence that it starts with are kept.

Results:
* `Tail.hideable_le_columns`: a sequence takes back only columns that its parts took.
* `width_eq_columns`: so the width of a text is the sum of what its characters add.
-/

namespace TextTemplate.Width

/-- Whether a character lies in one of the ranges. -/
def isIn (ranges : List (Nat × Nat)) (c : Char) : Bool :=
  ranges.any fun r => r.1 ≤ c.toNat && c.toNat ≤ r.2

/-! ## Characters of sequences -/

/-- The character that ties emoji, or letters, together. -/
def joiner : Char := '\u200d'

/-- The frame of a key around the character before it. -/
def keycap : Char := '\u20e3'

/-- The flag whose country is spelled by tags after it. -/
def taggedFlag : Char := Char.ofNat 0x1f3f4

/-- The end of the tags of a flag. -/
def tagEnd : Char := Char.ofNat 0xe007f

/-- The letters that spell a country in the tags of a flag. -/
def isTagLetter (c : Char) : Bool := isIn [(0xe0061, 0xe007a)] c

/-- The digits that spell a country in the tags of a flag. -/
def isTagDigit (c : Char) : Bool := isIn [(0xe0030, 0xe0039)] c

/-- The letters that make a flag in pairs. -/
def isFlagLetter (c : Char) : Bool := isIn [(0x1f1e6, 0x1f1ff)] c

/-- The five skin tones. -/
def isSkinTone (c : Char) : Bool := isIn [(0x1f3fb, 0x1f3ff)] c

/-- Emoji that stay wide as text: squared letters and ideographs. -/
def isEnclosedIdeograph (c : Char) : Bool := isIn [(0x1f200, 0x1f2ff)] c

/-- Quotation marks that have a full-width form. -/
def isCurlyQuote (c : Char) : Bool := isIn [(0x2018, 0x2019), (0x201c, 0x201d)] c

/-- What a variation selector asks of the character before it. -/
inductive Selector
  /-- To be shown as a picture. -/
  | picture
  /-- To be shown as text. -/
  | text
  /-- To take the full width of an ideograph. -/
  | fullWidth
  deriving DecidableEq, Repr

/-- The variation selector that a character is. -/
def Selector.ofChar? (c : Char) : Option Selector :=
  if c = '\ufe0f' then some .picture
  else if c = '\ufe0e' then some .text
  else if c = '\ufe01' then some .fullWidth
  else none

/-! ## The start of a text -/

/-- The last part of a ligature whose first part may stand to the left. -/
inductive Ligature
  /-- The Hebrew letter lamed. -/
  | lamed
  /-- The Buginese letter ya. -/
  | ya
  /-- A Buginese vowel sign joined to a ya. -/
  | vowelYa
  /-- A Tifinagh letter. -/
  | tifinagh
  /-- The sign that joins Tifinagh letters, with a letter after it. -/
  | tifinaghJoiner
  /-- A tone of Lisu. -/
  | tone
  /-- The Old Turkic letter I of the Orkhon. -/
  | orkhonI
  /-- A Khmer letter that has a subscript form. -/
  | khmer
  deriving DecidableEq, Repr

/-- What a text starts with, as far as it changes the columns of a character before it. -/
inductive Start
  /-- Nothing that does. -/
  | plain
  /-- A picture, which a joiner ties to one before it. -/
  | picture
  /-- A skin tone. -/
  | skinTone
  /-- One letter of a flag. -/
  | flagLetter
  /-- Two or more letters of flags. -/
  | flagLetters
  /-- A joiner that ties a picture to what stands before. -/
  | joined
  /-- The frame of a key, joined to a picture. -/
  | joinedKeycap
  /-- One letter of a flag, joined to a picture. -/
  | joinedFlagLetter
  /-- Letters of flags in pairs, joined to a picture. -/
  | joinedFlags
  /-- Letters of flags in pairs and one more, joined to a picture. -/
  | joinedFlagsLetter
  /-- The end of the tags of a flag, joined to a picture, after this many letters. -/
  | tagLetters (count : Nat)
  /-- The same after letters and, before those, this many digits. -/
  | tagDigits (count : Nat)
  /-- An Arabic alef, which joins to a lam before it. -/
  | alef
  /-- The last part of a ligature, and whether a joiner stands before it. -/
  | ligature (l : Ligature) (hasJoiner : Bool)
  /-- The Kirat Rai vowel sign E. -/
  | vowelE
  /-- The Kirat Rai vowel sign AI, or two of E. -/
  | vowelAi
  deriving DecidableEq, Repr

/-- The columns of a character that stands alone, and what a text starts with where it stands first. -/
def alone (c : Char) : Int × Start :=
  if c.toNat ≤ 0xa0 then (1, .plain)
  else if isIn alefRanges c then (1, .alef)
  else if c = '\u05dc' then (1, .ligature .lamed false)
  else if isIn khmerSubscriptRanges c then (1, .ligature .khmer false)
  else if c = '\u17d8' then (3, .plain)
  else if c = '\u1a10' then (1, .ligature .ya false)
  else if isIn tifinaghLetterRanges c then (1, .ligature .tifinagh false)
  else if c = '\ua4fc' || c = '\ua4fd' then (1, .ligature .tone false)
  else if c = Char.ofNat 0x10c03 then (1, .ligature .orkhonI false)
  else if c = Char.ofNat 0x16d67 then (1, .vowelE)
  else if c = Char.ofNat 0x16d68 then (1, .vowelAi)
  else if isFlagLetter c then (1, .flagLetter)
  else if isSkinTone c then (2, .skinTone)
  else if isIn emojiRanges c then (2, .picture)
  else if isIn zeroWidthRanges c then (0, .plain)
  else if isIn wideRanges c then (2, .plain)
  else (1, .plain)

/-! ## Sequences -/

/-- The columns that a character adds before the last part of a ligature, and the new start, if it belongs to
    the ligature. A letter that joins adds nothing, or takes back the column of the part it hides. -/
def Ligature.extend? (l : Ligature) (hasJoiner : Bool) (c : Char) : Option (Int × Start) :=
  if c = joiner then some (0, .ligature l true)
  else if isIn ignoredMarkRanges c then some (0, .ligature l hasJoiner)
  else
    match l with
    | .lamed => if hasJoiner && c = '\u05d0' then some (0, .plain) else none
    | .ya => if hasJoiner && c = '\u1a17' then some (0, .ligature .vowelYa true) else none
    | .vowelYa => if c = '\u1a15' then some (0, .plain) else none
    | .tifinagh =>
      if c = '\u2d7f' then some (1, .ligature .tifinaghJoiner true)
      else if hasJoiner && isIn tifinaghLetterRanges c then some (0, .plain)
      else none
    | .tifinaghJoiner => if isIn tifinaghLetterRanges c then some (-1, .plain) else none
    | .tone => if isIn [(0xa4f8, 0xa4fb)] c then some (0, .plain) else none
    | .orkhonI => if hasJoiner && c = Char.ofNat 0x10c32 then some (0, .plain) else none
    | .khmer => if c = '\u17d2' then some (-1, .plain) else none

/-- Whether a text starts with a picture that a joiner ties to what stands before. -/
def Start.isPicture : Start → Bool
  | .picture | .skinTone | .flagLetters | .joinedFlags | .joinedFlagsLetter => true
  | _ => false

/-- The columns that a character adds before a start, and the new start, if it belongs to a sequence with it.
    All pictures that joiners tie together take two columns; flags are taken in pairs of letters, and one
    letter too many stands for itself. -/
def Start.extend? (s : Start) (c : Char) : Option (Int × Start) :=
  if c = joiner && s.isPicture then some (0, .joined)
  else
    match s with
    | .skinTone => if isIn modifierBaseRanges c then some (0, .picture) else none
    | .flagLetter | .flagLetters => if isFlagLetter c then some (1, .flagLetters) else none
    | .joined =>
      if c = keycap then some (0, .joinedKeycap)
      else if isFlagLetter c then some (1, .joinedFlagLetter)
      else if isSkinTone c then some (0, .skinTone)
      else if c = tagEnd then some (0, .tagLetters 0)
      else if isIn emojiRanges c then some (0, .picture)
      else none
    | .joinedFlagLetter | .joinedFlagsLetter => if isFlagLetter c then some (-1, .joinedFlags) else none
    | .joinedFlags => if isFlagLetter c then some (3, .joinedFlagsLetter) else none
    | .tagLetters n =>
      if isTagLetter c && n < 6 then some (0, .tagLetters (n + 1))
      else if isTagDigit c && n ≤ 4 then some (0, .tagDigits 1)
      else if c = taggedFlag && 3 ≤ n then some (0, .picture)
      else none
    | .tagDigits n =>
      if isTagDigit c && n < 3 then some (0, .tagDigits (n + 1))
      else if c = taggedFlag && n = 3 then some (0, .picture)
      else none
    | .alef =>
      if isIn lamRanges c then some (0, .plain)
      else if isIn zeroWidthRanges c && !isIn partingZeroWidthRanges c then some (0, .alef)
      else none
    | .ligature l hasJoiner => l.extend? hasJoiner c
    | .vowelE =>
      if c = Char.ofNat 0x16d63 || c = Char.ofNat 0x16d69 then some (0, .plain)
      else if c = Char.ofNat 0x16d67 then some (0, .vowelAi)
      else if c = Char.ofNat 0x16d68 then some (1, .vowelE)
      else none
    | .vowelAi => if c = Char.ofNat 0x16d63 then some (0, .plain) else none
    | .plain | .picture | .joinedKeycap => none

/-- The columns of a start that a character before it may take back. -/
def Start.hideable : Start → Int
  | .joinedFlagLetter | .joinedFlagsLetter => 1
  | .ligature .tifinaghJoiner _ | .ligature .khmer _ => 1
  | _ => 0

theorem Start.hideable_nonneg (s : Start) : 0 ≤ s.hideable := by
  unfold Start.hideable
  split <;> decide

theorem hideable_alone_le (c : Char) : (alone c).2.hideable ≤ (alone c).1 := by
  fun_cases alone c <;> decide

theorem Ligature.hideable_extend?_le {l : Ligature} {hasJoiner : Bool} {c : Char} {n : Int} {s : Start}
    (h : l.extend? hasJoiner c = some (n, s)) : s.hideable ≤ n + (Start.ligature l hasJoiner).hideable := by
  unfold Ligature.extend? at h
  cases l <;> grind [Start.hideable]

theorem Start.hideable_extend?_le {s s' : Start} {c : Char} {n : Int} (h : s.extend? c = some (n, s')) :
    s'.hideable ≤ n + s.hideable := by
  cases s with
  | ligature l hasJoiner =>
    have hp : (Start.ligature l hasJoiner).isPicture = false := rfl
    simp only [Start.extend?, hp, Bool.and_false, Bool.false_eq_true, if_false] at h
    exact Ligature.hideable_extend?_le h
  | _ =>
    unfold Start.extend? at h
    grind [Start.hideable]

/-! ## Variation selectors -/

/-- Whether a text starts with the last part of a ligature that forms across variation selectors. -/
def Start.isLigature : Start → Bool
  | .alef | .ligature _ _ => true
  | _ => false

/-- What is left of a start behind a variation selector. -/
def Start.acrossSelector (s : Start) : Start :=
  if s.isLigature then s else .plain

/-- What a start is behind a fresh variation selector: one that asks for a picture keeps a joiner in mind,
    which ties the picture to the one after it. -/
def Start.behind (s : Start) (v : Selector) : Start :=
  match v, s with
  | .picture, .joined => .joined
  | .picture, .joinedKeycap => .joinedKeycap
  | _, s => s.acrossSelector

/-- The columns of a character that does as a variation selector asks, and the new start. -/
def Selector.select? (v : Selector) (s : Start) (c : Char) : Option (Int × Start) :=
  match v with
  | .picture =>
    if isIn textStyleEmojiRanges c || isIn textVariantEmojiRanges c then
      some (if s = .joined || s = .joinedKeycap then 0 else 2, .picture)
    else none
  | .text => if isIn textVariantEmojiRanges c && !isEnclosedIdeograph c then some (1, .plain) else none
  | .fullWidth => if isCurlyQuote c then some (2, .plain) else none

theorem Start.hideable_acrossSelector_le (s : Start) : s.acrossSelector.hideable ≤ s.hideable := by
  unfold Start.acrossSelector
  split
  · exact Int.le_refl _
  · exact s.hideable_nonneg

theorem Start.hideable_behind_le (s : Start) (v : Selector) : (s.behind v).hideable ≤ s.hideable := by
  unfold Start.behind
  split
  · exact Int.le_refl _
  · exact Int.le_refl _
  · exact s.hideable_acrossSelector_le

theorem Selector.hideable_select?_le {v : Selector} {s s' : Start} {c : Char} {n : Int}
    (h : v.select? s c = some (n, s')) : s'.hideable ≤ n := by
  unfold Selector.select? at h
  cases v <;> grind [Start.hideable]

/-! ## Texts -/

/-- A text, as far as the columns of what stands before it hang on it. -/
structure Tail where
  /-- The columns of the text. -/
  columns : Int
  /-- The variation selectors that the text starts with and that the character before it may follow. -/
  selectors : List Selector
  /-- What the text starts with, behind those selectors. -/
  start : Start
  deriving DecidableEq, Repr

namespace Tail

/-- The empty text. -/
def empty : Tail := ⟨0, [], .plain⟩

/-- The start of a text for a character that the selectors of the text do not concern. -/
def bareStart (t : Tail) : Start :=
  if t.selectors.isEmpty then t.start else t.start.acrossSelector

/-- The text with a variation selector before it. Of a row of selectors the first counts; before a ligature
    those after it count too, except that a picture is asked for by the first alone. -/
def pushSelector (t : Tail) (v : Selector) : Tail :=
  let row := if t.start.isLigature then t.selectors.filter (· ≠ .picture) else []
  ⟨t.columns, v :: row, t.bareStart.behind v⟩

/-- The text with a character before it. -/
def push (t : Tail) (c : Char) : Tail :=
  match t.selectors.findSome? (·.select? t.start c) with
  | some (n, s) => ⟨t.columns + n, [], s⟩
  | none =>
    match Selector.ofChar? c with
    | some v => t.pushSelector v
    | none =>
      let (n, s) := (t.bareStart.extend? c).getD (alone c)
      ⟨t.columns + n, [], s⟩

/-- A text, read from its end. -/
def ofText (s : Text) : Tail := s.foldr (fun c t => t.push c) empty

theorem hideable_bareStart_le (t : Tail) : t.bareStart.hideable ≤ t.start.hideable := by
  unfold bareStart
  split
  · exact Int.le_refl _
  · exact t.start.hideable_acrossSelector_le

theorem hideable_push_le {t : Tail} (h : t.start.hideable ≤ t.columns) (c : Char) :
    (t.push c).start.hideable ≤ (t.push c).columns := by
  have hb := t.hideable_bareStart_le
  have hs := t.start.hideable_nonneg
  unfold push
  split
  case h_1 n s hn =>
    obtain ⟨v, -, hv⟩ := List.exists_of_findSome?_eq_some hn
    have := Selector.hideable_select?_le hv
    simp only
    omega
  case h_2 =>
    split
    case h_1 v _ =>
      have := t.bareStart.hideable_behind_le v
      simp only [pushSelector]
      omega
    case h_2 =>
      cases he : t.bareStart.extend? c with
      | none =>
        have := hideable_alone_le c
        simp only [Option.getD_none]
        omega
      | some r =>
        have := Start.hideable_extend?_le he
        simp only [Option.getD_some]
        omega

theorem hideable_le_columns (s : Text) : (ofText s).start.hideable ≤ (ofText s).columns := by
  induction s with
  | nil => decide
  | cons c r ih => exact hideable_push_le ih c

end Tail

/-- The columns that a text takes. -/
def width (s : Text) : Nat := (Tail.ofText s).columns.toNat

theorem width_eq_columns (s : Text) : (width s : Int) = (Tail.ofText s).columns := by
  have h := Tail.hideable_le_columns s
  have h0 := (Tail.ofText s).start.hideable_nonneg
  unfold width
  omega

end TextTemplate.Width

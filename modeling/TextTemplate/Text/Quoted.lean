import TextTemplate.Fault

/-!
# Quoted strings

A quoted string stands between two equal quotes, `"` or `'`. Inside, a character from the space on stands
for itself unless it is the backslash or the closing quote; a backslash and one of `"`, `'`, `n`, `\` stand
for the two quotes, the newline and the backslash.

Results:
* `unescape?_quote`: either quote is escaped as itself.
* `length_lt_of_read`: a string that was read took at least its closing quote.
-/

namespace TextTemplate.Quoted

/-! ## Reading -/

/-- The character that a backslash and the given character stand for. -/
def unescape? : Char → Option Char
  | '"' => some '"'
  | '\'' => some '\''
  | 'n' => some '\n'
  | '\\' => some '\\'
  | _ => none

theorem unescape?_quote {q : Char} (hq : isQuote q = true) : unescape? q = some q := by
  simp only [isQuote, Bool.or_eq_true, beq_iff_eq] at hq
  rcases hq with rfl | rfl <;> rfl

/-- Read the rest of a string that the quote `q` has opened, up to and with its closing quote: its
    contents, and the text that follows. A bad escape is reported behind its backslash, any other end
    where it lies. -/
def read (q : Char) : Text → Except Fault (Text × Text)
  | [] => .error ⟨[], .unterminatedString⟩
  | ['\\'] => .error ⟨[], .unsupportedEscape⟩
  | '\\' :: c :: r =>
    match unescape? c with
    | none => .error ⟨c :: r, .unsupportedEscape⟩
    | some d => (read q r).map fun (t, u) => (d :: t, u)
  | c :: r =>
    if c = q then .ok ([], r)
    else if c < ' ' then .error ⟨c :: r, .unterminatedString⟩
    else (read q r).map fun (t, u) => (c :: t, u)

theorem length_lt_of_read {q : Char} {s t r : Text} (h : read q s = .ok (t, r)) :
    r.length < s.length := by
  fun_induction read q s generalizing t with
  | case1 => cases h
  | case2 => cases h
  | case3 => cases h
  | case4 c u d hd ih =>
    obtain ⟨⟨t', v⟩, k, e⟩ := exists_of_map_eq_ok h
    cases e
    have := ih k
    simp only [List.length_cons]
    omega
  | case5 u =>
    cases h
    simp
  | case6 => cases h
  | case7 c u hb hb' hq hl ih =>
    obtain ⟨⟨t', v⟩, k, e⟩ := exists_of_map_eq_ok h
    cases e
    have := ih k
    simp only [List.length_cons]
    omega

/-! ## Writing -/

/-- A character as it is written in a string between quotes `q`: the quote, the backslash and the
    newline escaped, any other as itself. -/
def escape (q c : Char) : Text :=
  if c = '\\' ∨ c = q then ['\\', c] else if c = '\n' then ['\\', 'n'] else [c]

/-- A text as it is written between quotes `q`, without them. -/
def encodeBody (q : Char) (s : Text) : Text := s.flatMap (escape q)

/-- A text as a quoted string with quotes `q`. -/
def encode (q : Char) (s : Text) : Text := q :: encodeBody q s ++ [q]

end TextTemplate.Quoted

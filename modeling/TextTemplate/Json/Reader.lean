import TextTemplate.Fault
import TextTemplate.Json

/-!
# Reading objects of strings

An object is read if all its members are strings: blank space may stand between its marks, and strings may
use every escape. A character above the sixteen-bit range is escaped in two halves, which count only
together. Anything else, before, within or after the object, makes the whole text unreadable.

Results:
* `length_lt_of_readString`, `length_lt_of_readMember`: reading takes at least a character.
-/

namespace TextTemplate.Json

/-! ## Escapes -/

/-- The value of a digit of base sixteen, in either case. -/
def hexValue? (c : Char) : Option Nat :=
  if '0' ≤ c ∧ c ≤ '9' then some (c.toNat - 48)
  else if 'a' ≤ c ∧ c ≤ 'f' then some (c.toNat - 87)
  else if 'A' ≤ c ∧ c ≤ 'F' then some (c.toNat - 55)
  else none

/-- Read four digits of base sixteen. -/
def readUnit : Text → Option (Nat × Text)
  | a :: b :: c :: d :: r => do
    let h ← hexValue? a
    let i ← hexValue? b
    let j ← hexValue? c
    let k ← hexValue? d
    some (((h * 16 + i) * 16 + j) * 16 + k, r)
  | _ => none

/-- The first half of a character above the sixteen-bit range. -/
def isHighHalf (n : Nat) : Bool := 0xd800 ≤ n && n < 0xdc00

/-- The second half of a character above the sixteen-bit range. -/
def isLowHalf (n : Nat) : Bool := 0xdc00 ≤ n && n < 0xe000

/-- The character whose two halves are given. -/
def ofHalves (m n : Nat) : Char := Char.ofNat (0x10000 + (m - 0xd800) * 0x400 + (n - 0xdc00))

/-- The character that a backslash and a letter or mark stand for. -/
def unescape? : Char → Option Char
  | '"' => some '"'
  | '\\' => some '\\'
  | '/' => some '/'
  | 'b' => some '\x08'
  | 'f' => some '\x0c'
  | 'n' => some '\n'
  | 'r' => some '\r'
  | 't' => some '\t'
  | _ => none

/-- Read an escaped character behind its backslash. -/
def readEscape : Text → Option (Char × Text)
  | 'u' :: r => do
    let (m, u) ← readUnit r
    if isHighHalf m then
      match u with
      | '\\' :: 'u' :: v => do
        let (n, w) ← readUnit v
        if isLowHalf n then some (ofHalves m n, w) else none
      | _ => none
    else if isLowHalf m then none
    else some (Char.ofNat m, u)
  | c :: r => (unescape? c).map (·, r)
  | [] => none

theorem length_lt_of_readUnit {s r : Text} {n : Nat} (h : readUnit s = some (n, r)) :
    r.length < s.length := by
  unfold readUnit at h
  split at h
  · simp only [Option.bind_eq_bind, Option.bind_eq_some_iff, Option.some.injEq,
      Prod.mk.injEq] at h
    obtain ⟨_, _, _, _, _, _, _, _, _, rfl⟩ := h
    simp only [List.length_cons]
    omega
  · cases h

theorem length_lt_of_readEscape {s r : Text} {c : Char} (h : readEscape s = some (c, r)) :
    r.length < s.length := by
  unfold readEscape at h
  split at h
  · obtain ⟨⟨m, u⟩, hu, h⟩ := Option.bind_eq_some_iff.1 h
    have := length_lt_of_readUnit hu
    simp only at h
    split at h
    · split at h
      · obtain ⟨⟨n, w⟩, hw, h⟩ := Option.bind_eq_some_iff.1 h
        have := length_lt_of_readUnit hw
        simp only [List.length_cons] at *
        split at h <;> grind
      · cases h
    · split at h <;> grind
  · obtain ⟨d, _, h⟩ := Option.map_eq_some_iff.1 h
    cases h
    simp
  · cases h

/-! ## Strings -/

/-- Read the rest of a string behind its opening quote, up to and with the closing one. -/
def readString (s : Text) : Option (Text × Text) :=
  match s with
  | [] => none
  | c :: r =>
    if c = '"' then some ([], r)
    else if c = '\\' then
      match _h : readEscape r with
      | none => none
      | some (d, u) => (readString u).map fun (t, v) => (d :: t, v)
    else if c < ' ' then none
    else (readString r).map fun (t, v) => (c :: t, v)
termination_by s.length
decreasing_by
  · have := length_lt_of_readEscape _h
    simp only [List.length_cons]
    omega
  · simp

theorem length_lt_of_readString {s t r : Text} (h : readString s = some (t, r)) :
    r.length < s.length := by
  fun_induction readString s generalizing t with
  | case1 => cases h
  | case2 => cases h; simp
  | case3 => cases h
  | case4 u d v he _ ih =>
    obtain ⟨⟨t', w⟩, k, e⟩ := Option.map_eq_some_iff.1 h
    cases e
    have := ih k
    have := length_lt_of_readEscape he
    simp only [List.length_cons]
    omega
  | case5 => cases h
  | case6 c u h1 h2 h3 ih =>
    obtain ⟨⟨t', w⟩, k, e⟩ := Option.map_eq_some_iff.1 h
    cases e
    have := ih k
    simp only [List.length_cons]
    omega

/-! ## Objects -/

/-- The characters that may stand between the marks of a text. -/
def isBlank (c : Char) : Bool := c == ' ' || c == '\n' || c == '\r' || c == '\t'

/-- Read a mark, behind blank space if there is any. -/
def readMark (c : Char) (s : Text) : Option Text :=
  match s.dropWhile isBlank with
  | [] => none
  | d :: r => if d = c then some r else none

/-- Read a member of an object: two strings with a colon between them. -/
def readMember (s : Text) : Option ((Text × Text) × Text) := do
  let (key, r) ← readString (← readMark '"' s)
  let (value, r) ← readString (← readMark '"' (← readMark ':' r))
  some ((key, value), r)

theorem length_lt_of_readMark {c : Char} {s r : Text} (h : readMark c s = some r) :
    r.length < s.length := by
  have := length_dropWhile_le isBlank s
  unfold readMark at h
  split at h
  · cases h
  · split at h <;> grind

theorem length_lt_of_readMember {s r : Text} {m : Text × Text} (h : readMember s = some (m, r)) :
    r.length < s.length := by
  simp only [readMember, Option.bind_eq_bind, Option.bind_eq_some_iff, Prod.exists,
    Option.some.injEq, Prod.mk.injEq] at h
  obtain ⟨a, ha, key, b, hb, c, hc, d, hd, value, e, he, _, rfl⟩ := h
  have := length_lt_of_readMark ha
  have := length_lt_of_readString hb
  have := length_lt_of_readMark hc
  have := length_lt_of_readMark hd
  have := length_lt_of_readString he
  omega

/-- Read the members of an object, one at least, and its closing brace. -/
def readMembers (s : Text) : Option (List (Text × Text) × Text) :=
  match _h : readMember s with
  | none => none
  | some (m, r) =>
    match _k : r.dropWhile isBlank with
    | '}' :: u => some ([m], u)
    | ',' :: u => (readMembers u).map fun (ms, v) => (m :: ms, v)
    | _ => none
termination_by s.length
decreasing_by
  have := length_lt_of_readMember _h
  have := length_dropWhile_le isBlank r
  grind

/-- Read an object of strings behind its opening brace. -/
def readFields (s : Text) : Option (List (Text × Text) × Text) :=
  match s.dropWhile isBlank with
  | '}' :: r => some ([], r)
  | _ => readMembers s

/-- The members of the object of strings that a text consists of. -/
def stringMembers? (s : Text) : Option (List (Text × Text)) := do
  let (ms, r) ← readFields (← readMark '{' s)
  if r.dropWhile isBlank = [] then some ms else none

end TextTemplate.Json

import TextTemplate.Text

/-!
# Paths

A path is spelled with characters, and with bytes that are none: the names in a file system are rows of bytes, and
nothing makes them UTF-8. What is shown of a path is text, with a replacement character for bytes that are no character.
So two paths may be shown alike, and only of a path that is text does what is shown spell the path again.

The meaning of a path is the list of its components. A leading slash is the root, a `.` counts only at the front of a
relative path, other `.` and empty segments are dropped, and `..` is kept: it is resolved by nobody but the file system.
Two paths are the same when their components are. Joining and taking the parent work on the spelling, so that a path is
shown as it came about.

Results:
* `Path.text_mk`, `Path.isText_iff`: what is shown of a path that is text.
* `Path.Same.refl`, `Path.Same.symm`, `Path.Same.trans`: sameness is an equivalence.
* `Path.join_absolute`: an absolute path is itself wherever it is looked for.
-/

namespace TextTemplate

/-! ## Spellings -/

/-- What paths are spelled with. -/
inductive PathChar where
  /-- A character. -/
  | char (c : Char)
  /-- Bytes that start no character, or break one off: as many as are replaced together. -/
  | stray (bytes : List UInt8)
  deriving DecidableEq, Repr

/-- How a path is spelled. -/
abbrev Spelling := List PathChar

instance : Coe Text Spelling := ⟨List.map .char⟩

namespace PathChar

/-- The slash between the segments of a path. -/
abbrev slash : PathChar := .char '/'

/-- The dot, alone or twice a segment that names no entry. -/
abbrev dot : PathChar := .char '.'

/-- The character that is shown. -/
def shown : PathChar → Char
  | .char c => c
  | .stray _ => '\ufffd'

/-- The number of bytes. -/
def byteLength : PathChar → Nat
  | .char c => c.utf8Size
  | .stray bytes => bytes.length

end PathChar

/-- The number of bytes of a spelling. -/
def Spelling.byteLength (s : Spelling) : Nat := s.foldr (fun c n => c.byteLength + n) 0

/-- A path, by its spelling. -/
structure Path where
  /-- The spelling. -/
  spelling : Spelling
  deriving DecidableEq, Repr

namespace Path

/-- The text that is shown of a path. -/
def text (p : Path) : Text := p.spelling.map PathChar.shown

/-- A path is text if what is shown of it spells it. -/
def IsText (p : Path) : Prop := p = ⟨p.text⟩

instance (p : Path) : Decidable p.IsText := inferInstanceAs (Decidable (_ = _))

/-- Of a path that a text spells, the text is shown. -/
@[simp] theorem text_mk (t : Text) : (⟨t⟩ : Path).text = t := by
  simp [text, PathChar.shown, Function.comp_def]

/-- The paths that are text are those spelled with characters. -/
theorem isText_iff {p : Path} : p.IsText ↔ ∃ t : Text, p = ⟨t⟩ := by
  constructor
  · exact fun h => ⟨p.text, h⟩
  · rintro ⟨t, rfl⟩
    rw [IsText, text_mk]

/-- One step on the way that a path describes. -/
inductive Component where
  /-- The root of the file system. -/
  | root
  /-- A `.` at the front of a relative path. -/
  | here
  /-- The directory above, `..`. -/
  | up
  /-- The entry of that name. -/
  | name (n : Spelling)
  deriving DecidableEq, Repr

/-- A path is absolute if its spelling starts with a slash. -/
def IsAbsolute (p : Path) : Prop := p.spelling.head? = some .slash

instance (p : Path) : Decidable p.IsAbsolute := inferInstanceAs (Decidable (_ = _))

/-! ## Components -/

/-- What a segment between two slashes stands for, if it counts. -/
def Component.ofSegment? (s : Spelling) : Option Component :=
  if s = [] ∨ s = [.dot] then none else if s = [.dot, .dot] then some .up else some (.name s)

/-- The components among segments, each with the length of the spelling up to its end; the first segment
    starts after `start` characters. -/
def marksFrom (start : Nat) : List Spelling → List (Component × Nat)
  | [] => []
  | s :: ss =>
    match Component.ofSegment? s with
    | none => marksFrom (start + s.length + 1) ss
    | some c => (c, start + s.length) :: marksFrom (start + s.length + 1) ss

/-- The components of a path, each with the length of the spelling up to its end. -/
def marks (p : Path) : List (Component × Nat) :=
  match p.spelling.splitOn .slash with
  | [] => []
  | s :: ss =>
    if p.IsAbsolute then (.root, 1) :: marksFrom 1 ss
    else if s = [.dot] then (.here, 1) :: marksFrom 2 ss
    else marksFrom 0 (s :: ss)

/-- The components of a path: what the path means. -/
def components (p : Path) : List Component := p.marks.map Prod.fst

/-- Two spellings of one path. -/
def Same (p q : Path) : Prop := p.components = q.components

instance (p q : Path) : Decidable (p.Same q) := inferInstanceAs (Decidable (_ = _))

theorem Same.refl (p : Path) : p.Same p := rfl

theorem Same.symm {p q : Path} (h : p.Same q) : q.Same p := Eq.symm h

theorem Same.trans {p q r : Path} (h : p.Same q) (k : q.Same r) : p.Same r := Eq.trans h k

/-! ## Joining and parents -/

/-- The path `q` as seen from the directory `p`: itself if it is absolute, else put behind `p` and a
    slash, where `p` needs one. -/
def join (p q : Path) : Path :=
  if q.IsAbsolute then q
  else if p.spelling = [] ∨ p.spelling.getLast? = some .slash then ⟨p.spelling ++ q.spelling⟩
  else ⟨p.spelling ++ .slash :: q.spelling⟩

theorem join_absolute (p : Path) {q : Path} (h : q.IsAbsolute) : p.join q = q := by
  simp [join, h]

/-- The directory that holds a path's last component: the spelling up to the end of the component before
    it, and the empty path where there is none. -/
def parent (p : Path) : Path :=
  match p.marks.dropLast.getLast? with
  | some (_, length) => ⟨p.spelling.take length⟩
  | none => ⟨[]⟩

end Path

end TextTemplate

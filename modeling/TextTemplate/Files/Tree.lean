import TextTemplate.Inquiry

/-!
# A directory tree

The files and directories below and around a working directory, of which what is not recorded does not
exist. A path is resolved one segment after the other, each in a directory that exists: `..` goes to the
directory above the one reached, an empty segment and `.` stay in it, and a segment behind a file fails.

Results:
* `entryAt_put`: what stands at a place after something was put at one.
-/

namespace TextTemplate

/-! ## Places -/

/-- Where the way to a place starts. -/
inductive Anchor where
  /-- So many directories above the working directory. -/
  | above (levels : Nat)
  /-- The root of the file system. -/
  | root
  deriving DecidableEq, Repr

/-- A place in the tree: the names that lead to it from an anchor. -/
structure Place where
  /-- Where the way starts. -/
  anchor : Anchor
  /-- The names on the way. -/
  names : List Spelling
  deriving DecidableEq, Repr

namespace Place

/-- The working directory. -/
def workingDirectory : Place := ⟨.above 0, []⟩

/-- The entry of that name in a directory. -/
def child (p : Place) (name : Spelling) : Place := ⟨p.anchor, p.names ++ [name]⟩

/-- The directory above. -/
def parent (p : Place) : Place :=
  match p.names, p.anchor with
  | [], .above n => ⟨.above (n + 1), []⟩
  | [], .root => p
  | names, anchor => ⟨anchor, names.dropLast⟩

end Place

/-! ## Trees -/

/-- What stands at a place. -/
inductive Entry where
  /-- A file with its text, or without one if its bytes are no text. -/
  | file (content : Option Text)
  /-- A directory. -/
  | directory
  deriving DecidableEq, Repr

/-- Files and directories by place; the anchors are directories always. -/
structure FileTree where
  /-- What stands where. -/
  entries : List (Place × Entry) := []

/-- Why a path leads nowhere. -/
inductive FileTree.Trouble where
  | noEntry
  | notADirectory
  | isADirectory
  | nameTooLong
  | nulInName
  | notText
  deriving DecidableEq, Repr

namespace FileTree

/-- The failure to read a file that a trouble is. -/
def Trouble.failure : Trouble → ReadFailure
  | .noEntry => ⟨.notFound, "No such file or directory (os error 2)".toList⟩
  | .notADirectory => ⟨.notADirectory, "Not a directory (os error 20)".toList⟩
  | .isADirectory => ⟨.isADirectory, "Is a directory (os error 21)".toList⟩
  | .nameTooLong => ⟨.invalidFileName, "File name too long (os error 36)".toList⟩
  | .nulInName => ⟨.invalidInput, "file name contained an unexpected NUL byte".toList⟩
  | .notText => ⟨.invalidData, "stream did not contain valid UTF-8".toList⟩

/-- What stands at a place. -/
def entryAt (t : FileTree) (p : Place) : Option Entry :=
  if p.names = [] then some .directory else t.entries.lookup p

/-- Put an entry at a place, instead of the one there. -/
def put (t : FileTree) (p : Place) (e : Entry) : FileTree :=
  ⟨(p, e) :: t.entries.filter (·.1 ≠ p)⟩

theorem entryAt_put (t : FileTree) {p : Place} (hp : p.names ≠ []) (e : Entry) (q : Place) :
    (t.put p e).entryAt q = if q = p then some e else t.entryAt q := by
  unfold entryAt put
  by_cases h : q = p
  · subst h
    simp [hp]
  · have hb : (q == p) = false := beq_eq_false_iff_ne.2 h
    simp only [List.lookup_cons, hb, h, if_false]
    congr 1
    induction t.entries with
    | nil => rfl
    | cons x xs ih =>
      obtain ⟨r, f⟩ := x
      by_cases hr : r = p
      · subst hr
        simpa [List.lookup_cons, hb] using ih
      · by_cases hq : q = r
        · subst hq
          simp [hr]
        · have hq' : (q == r) = false := beq_eq_false_iff_ne.2 hq
          simpa [hr, List.lookup_cons, hq'] using ih

/-! ## Resolution -/

/-- A name may have 255 bytes. -/
def maxNameLength : Nat := 255

/-- The spelling of a path may have 4095 bytes. -/
def maxPathLength : Nat := 4095

/-- Go on by one segment, which must stand in a directory. -/
def step (t : FileTree) (p : Place) (segment : Spelling) : Except Trouble Place :=
  if t.entryAt p = some .directory then
    if segment = [] ∨ segment = [.dot] then .ok p
    else if segment = [.dot, .dot] then .ok p.parent
    else if maxNameLength < segment.byteLength then .error .nameTooLong
    else if (t.entryAt (p.child segment)).isSome then .ok (p.child segment)
    else .error .noEntry
  else .error .notADirectory

/-- Where the way of a path starts, and its segments. A character that no name may hold is found before
    anything else that is wrong with the path. -/
def segments (p : Path) : Except Trouble (Place × List Spelling) :=
  if .char '\x00' ∈ p.spelling then .error .nulInName
  else if p.spelling = [] then .error .noEntry
  else if maxPathLength < p.spelling.byteLength then .error .nameTooLong
  else .ok (if p.IsAbsolute then ⟨.root, []⟩ else .workingDirectory, p.spelling.splitOn .slash)

/-- The place that a path leads to. -/
def resolve (t : FileTree) (p : Path) : Except Trouble Place := do
  let (start, ss) ← segments p
  ss.foldlM t.step start

/-- The text of the file at a path. -/
def read? (t : FileTree) (p : Path) : Except Trouble Text := do
  match t.entryAt (← t.resolve p) with
  | some (.file (some text)) => .ok text
  | some (.file none) => .error .notText
  | some .directory => .error .isADirectory
  | none => .error .noEntry

/-- What the files of a tree hold. -/
def read (t : FileTree) : Files := fun p => (t.read? p).mapError Trouble.failure

/-! ## Writing -/

/-- The tree after a text was written to the file at a path, which need not exist but must not be a
    directory; nothing if it cannot be written. -/
def write? (t : FileTree) (p : Path) (text : Text) : Except Trouble FileTree := do
  let (start, ss) ← segments p
  let directory ← ss.dropLast.foldlM t.step start
  let name := ss.getLast?.getD []
  if t.entryAt directory ≠ some .directory then .error .notADirectory
  else if name = [] ∨ name = [.dot] ∨ name = [.dot, .dot] then .error .isADirectory
  else if maxNameLength < name.byteLength then .error .nameTooLong
  else if t.entryAt (directory.child name) = some .directory then .error .isADirectory
  else .ok (t.put (directory.child name) (.file (some text)))

/-! ## Building -/

/-- Put directories at a place and above it, where nothing stands yet. -/
def makeDirectories (t : FileTree) (anchor : Anchor) (names : List Spelling) : FileTree :=
  (List.range names.length).foldl
    (fun t i =>
      let p : Place := ⟨anchor, names.take (i + 1)⟩
      if (t.entryAt p).isSome then t else t.put p .directory) t

/-- The names on the way of a path below the working directory. -/
def namesOf (p : Path) : List Spelling :=
  (p.spelling.splitOn .slash).filter fun s => s ≠ [] ∧ s ≠ [.dot]

/-- Put a file below the working directory, with the directories on its way. -/
def addFile (t : FileTree) (p : Path) (content : Option Text) : FileTree :=
  (t.makeDirectories (.above 0) (namesOf p).dropLast).put ⟨.above 0, namesOf p⟩ (.file content)

/-- Put a directory below the working directory, with the directories on its way. -/
def addDirectory (t : FileTree) (p : Path) : FileTree := t.makeDirectories (.above 0) (namesOf p)

end FileTree

end TextTemplate

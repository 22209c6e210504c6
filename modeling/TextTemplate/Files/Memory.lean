import TextTemplate.Inquiry

/-!
# Files in memory

A table of files by path: each holds a text or fails to be read in a stated way. Spellings of one path name
one file, and a path that is not in the table is not found.

Results:
* `find?_put`, `find?_remove`: what the table holds after each operation.
* `exists_mem_of_read`: what is read is in the table.
-/

namespace TextTemplate

/-- Files by path. -/
structure FileTable where
  /-- The files, each path once up to spelling. -/
  entries : List (Path × Except ReadFailure.Kind Text) := []

namespace FileTable

/-- The entry for a path, if there is one. -/
def find? (t : FileTable) (path : Path) : Option (Except ReadFailure.Kind Text) :=
  (t.entries.find? fun e => e.1.Same path).map Prod.snd

/-- What the file at a path holds. -/
def read (t : FileTable) : Files := fun path =>
  match t.find? path with
  | some file => file.mapError .ofKind
  | none => .error (.ofKind .notFound)

/-- Whether the table has an entry for a path. -/
def contains (t : FileTable) (path : Path) : Bool := (t.find? path).isSome

/-- Take the entry for a path out. -/
def remove (t : FileTable) (path : Path) : FileTable :=
  ⟨t.entries.filter fun e => ¬ e.1.Same path⟩

/-- Put a file at a path, instead of the one there. -/
def put (t : FileTable) (path : Path) (file : Except ReadFailure.Kind Text) : FileTable :=
  ⟨(path, file) :: (t.remove path).entries⟩

/-- A table of files, later ones in place of earlier ones. -/
def ofList (files : List (Path × Except ReadFailure.Kind Text)) : FileTable :=
  files.foldl (fun t f => t.put f.1 f.2) {}

/-! ## What the table holds -/

theorem find?_remove (t : FileTable) (p q : Path) :
    (t.remove p).find? q = if p.Same q then none else t.find? q := by
  simp only [find?, remove, List.find?_filter]
  split
  · rename_i h
    rw [List.find?_eq_none.2, Option.map_none]
    intro e _
    simp only [decide_not, Bool.not_eq_true', decide_eq_false_iff_not, decide_eq_true_eq, not_and]
    exact fun hn hs => hn (hs.trans h.symm)
  · rename_i h
    congr 2
    funext e
    by_cases hs : e.1.Same q
    · have : ¬ e.1.Same p := fun hp => h (hp.symm.trans hs)
      simp [hs, this]
    · simp [hs]

theorem find?_put (t : FileTable) (p q : Path) (file : Except ReadFailure.Kind Text) :
    (t.put p file).find? q = if p.Same q then some file else t.find? q := by
  by_cases h : p.Same q
  · simp [put, find?, h]
  · have := find?_remove t p q
    simp only [h, if_false] at this
    simpa [put, find?, h] using this

/-- What is read is in the table. -/
theorem exists_mem_of_read {t : FileTable} {p : Path} {s : Text} (h : t.read p = .ok s) :
    ∃ q, (q, .ok s) ∈ t.entries := by
  unfold read find? at h
  cases hfind : t.entries.find? fun e => e.1.Same p with
  | none => rw [hfind] at h; cases h
  | some e =>
    obtain ⟨q, file⟩ := e
    rw [hfind] at h
    cases file with
    | error kind => cases h
    | ok s' =>
      cases h
      exact ⟨q, List.mem_of_find?_eq_some hfind⟩

end FileTable

end TextTemplate

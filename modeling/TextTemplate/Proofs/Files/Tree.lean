import TextTemplate.Files.Tree

/-!
# Writing into a tree

A text that can be written to a file stands there alone: the path leads to the file afterwards, the file holds the
text, and whatever stands at another place is what stood there before. For the way to a file leads through directories
only, and writing replaces none.

Main results:
* `step_eq_ok_iff`, `write?_eq_ok_iff`: what a step and writing do.
* `step_put`, `foldlM_step_put`: a way goes on as before where something was put in the place of no directory.
* `writes_of_write?`: the file is written, and nothing else.
-/

namespace TextTemplate.FileTree

variable {t t' : FileTree} {path : Path} {text : Text} {segment : Spelling} {p q place : Place} {e : Entry}

/-! ## Specification -/

/-- The second tree is the first with a text written to the file at a path. -/
structure Writes (t : FileTree) (path : Path) (text : Text) (t' : FileTree) : Prop where
  /-- The file holds the text. -/
  read : t'.read? path = .ok text
  /-- Only what stands at its place may be another thing than before, and no directory was there. -/
  frame : ∃ place, t'.resolve path = .ok place ∧ t.entryAt place ≠ some .directory ∧
    ∀ q, q ≠ place → t'.entryAt q = t.entryAt q

/-- A segment that names an entry of the directory that it stands in. -/
structure IsName (segment : Spelling) : Prop where
  /-- It does not stay in the directory. -/
  stays : ¬ (segment = [] ∨ segment = [.dot])
  /-- It does not go to the directory above. -/
  rises : segment ≠ [.dot, .dot]
  /-- It is not too long. -/
  length : segment.byteLength ≤ maxNameLength

/-- A path leads to a place for a file: a name in a directory, which is no directory's. -/
def HasRoom (t : FileTree) (path : Path) (place : Place) : Prop :=
  ∃ start ss directory name, segments path = .ok (start, ss ++ [name]) ∧
    ss.foldlM t.step start = .ok directory ∧ t.entryAt directory = some .directory ∧ IsName name ∧
    place = directory.child name ∧ t.entryAt place ≠ some .directory

/-! ## One segment -/

theorem step_eq_ok_iff : t.step p segment = .ok q ↔
    t.entryAt p = some .directory ∧
      ((segment = [] ∨ segment = [.dot]) ∧ p = q ∨ segment = [.dot, .dot] ∧ p.parent = q ∨
        IsName segment ∧ (t.entryAt (p.child segment)).isSome ∧ p.child segment = q) := by
  unfold step
  by_cases hp : t.entryAt p = some .directory
  case neg => simp [hp]
  by_cases hstays : segment = [] ∨ segment = [.dot]
  case pos =>
    have hrises : segment ≠ [.dot, .dot] := by rcases hstays with rfl | rfl <;> decide
    have hname : ¬ IsName segment := fun h => h.stays hstays
    simp [hp, hstays, hrises, hname]
  by_cases hrises : segment = [.dot, .dot]
  case pos =>
    have hname : ¬ IsName [.dot, .dot] := fun h => h.rises rfl
    simp [hp, hrises, hname]
  by_cases hlength : maxNameLength < segment.byteLength
  case pos =>
    have hname : ¬ IsName segment := fun h => Nat.not_lt.2 h.length hlength
    simp [hp, hstays, hrises, hlength, hname]
  have hname : IsName segment := ⟨hstays, hrises, Nat.not_lt.1 hlength⟩
  by_cases hentry : (t.entryAt (p.child segment)).isSome <;>
    simp [hp, hstays, hrises, hlength, hname, hentry]

/-- A step that succeeds is the same after something was put in the place of no directory. -/
theorem step_put (hplace : place.names ≠ []) (hnot : t.entryAt place ≠ some .directory)
    (h : t.step p segment = .ok q) : (t.put place e).step p segment = .ok q := by
  have hkept : ∀ r, (t.entryAt r).isSome → ((t.put place e).entryAt r).isSome := by
    intro r hr
    rw [entryAt_put t hplace]
    split
    · rfl
    · exact hr
  obtain ⟨hp, hstep⟩ := step_eq_ok_iff.1 h
  have hne : p ≠ place := by
    rintro rfl
    exact hnot hp
  refine step_eq_ok_iff.2 ⟨?_, ?_⟩
  · rw [entryAt_put t hplace, if_neg hne, hp]
  · rcases hstep with hstays | hrises | ⟨hname, hentry, hq⟩
    · exact .inl hstays
    · exact .inr (.inl hrises)
    · exact .inr (.inr ⟨hname, hkept _ hentry, hq⟩)

/-! ## Many segments -/

theorem exists_of_bind_eq_ok {ε α β : Type} {x : Except ε α} {f : α → Except ε β} {b : β}
    (h : x >>= f = .ok b) : ∃ a, x = .ok a ∧ f a = .ok b := by
  cases x with
  | ok a => exact ⟨a, rfl, h⟩
  | error e => cases h

theorem foldlM_step_put (hplace : place.names ≠ []) (hnot : t.entryAt place ≠ some .directory) {ss : List Spelling}
    (h : ss.foldlM t.step p = .ok q) : ss.foldlM (t.put place e).step p = .ok q := by
  induction ss generalizing p with
  | nil => exact h
  | cons s ss ih =>
    rw [List.foldlM_cons] at h ⊢
    obtain ⟨r, hr, h⟩ := exists_of_bind_eq_ok h
    rw [step_put hplace hnot hr]
    exact ih h

/-! ## Writing -/

/-- A text is written to the place for a file that the path leads to, if it leads to one. -/
theorem write?_eq_ok_iff :
    t.write? path text = .ok t' ↔ ∃ place, t.HasRoom path place ∧ t' = t.put place (.file (some text)) := by
  constructor
  · intro h
    obtain ⟨⟨start, ss⟩, hsegments, h⟩ := exists_of_bind_eq_ok h
    obtain ⟨directory, hdirectory, h⟩ := exists_of_bind_eq_ok h
    dsimp only at hdirectory h
    rcases List.eq_nil_or_concat ss with rfl | ⟨init, name, rfl⟩
    · split at h <;> cases h
    rw [List.concat_eq_append] at hsegments hdirectory h
    rw [List.dropLast_concat] at hdirectory
    rw [List.getLast?_concat, Option.getD_some] at h
    by_cases hdir : t.entryAt directory = some .directory
    case neg => rw [if_pos hdir] at h; cases h
    rw [if_neg (not_not_intro hdir)] at h
    by_cases hother : name = [] ∨ name = [.dot] ∨ name = [.dot, .dot]
    case pos => rw [if_pos hother] at h; cases h
    rw [if_neg hother] at h
    by_cases hlength : maxNameLength < name.byteLength
    case pos => rw [if_pos hlength] at h; cases h
    rw [if_neg hlength] at h
    by_cases hfile : t.entryAt (directory.child name) = some .directory
    case pos => rw [if_pos hfile] at h; cases h
    rw [if_neg hfile] at h
    have hname : IsName name :=
      ⟨fun h => hother (or_assoc.1 (.inl h)), fun h => hother (.inr (.inr h)), Nat.not_lt.1 hlength⟩
    exact ⟨directory.child name, ⟨start, init, directory, name, hsegments, hdirectory, hdir, hname, rfl, hfile⟩,
      (Except.ok.inj h).symm⟩
  · rintro ⟨place, ⟨start, ss, directory, name, hsegments, hdirectory, hdir, hname, rfl, hfile⟩, rfl⟩
    have hother : ¬ (name = [] ∨ name = [.dot] ∨ name = [.dot, .dot]) := by
      rw [← or_assoc]
      exact not_or.2 ⟨hname.stays, hname.rises⟩
    simp only [write?, hsegments, bind, Except.bind, List.dropLast_concat, hdirectory, List.getLast?_concat,
      Option.getD_some]
    rw [if_neg (not_not_intro hdir), if_neg hother, if_neg (Nat.not_lt.2 hname.length), if_neg hfile]

/-- A file that can be written is written, and nothing else is changed. -/
theorem writes_of_write? (h : t.write? path text = .ok t') : t.Writes path text t' := by
  obtain ⟨place, ⟨start, ss, directory, name, hsegments, hdirectory, hdir, hname, hplace, hfile⟩, rfl⟩ :=
    write?_eq_ok_iff.1 h
  have hnames : place.names ≠ [] := by
    rw [hplace]
    exact List.concat_ne_nil name directory.names
  have hput := entryAt_put t hnames (.file (some text))
  have hne : directory ≠ place := by
    rintro rfl
    exact hfile hdir
  have hstep : (t.put place (.file (some text))).step directory name = .ok place := by
    refine step_eq_ok_iff.2 ⟨?_, .inr (.inr ⟨hname, ?_, hplace.symm⟩)⟩
    · rw [hput, if_neg hne, hdir]
    · rw [← hplace, hput, if_pos rfl]
      rfl
  have hresolve : (t.put place (.file (some text))).resolve path = .ok place := by
    rw [resolve, hsegments]
    change (ss ++ [name]).foldlM _ start = _
    rw [List.foldlM_append, foldlM_step_put hnames hfile hdirectory]
    exact (bind_pure _).trans hstep
  have hentry : (t.put place (.file (some text))).entryAt place = some (.file (some text)) := by
    rw [hput, if_pos rfl]
  refine ⟨?_, place, hresolve, hfile, fun q hq => ?_⟩
  · simp only [read?, hresolve, bind, Except.bind, hentry]
  · rw [hput, if_neg hq]

end TextTemplate.FileTree

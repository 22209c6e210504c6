import TextTemplate.Bindings
import TextTemplate.Error
import TextTemplate.Text.Quoted

/-!
# Reading bindings

A text of bindings is a list of definitions, each a name, a value and the end of its line, with blank space
and `--` comments between them. Names and values are made of quoted strings and unquoted stretches without
a gap. Reading goes in two steps: `definitions` finds the definitions and the fault that ends them, if any,
and `Bindings.read` binds their names, none twice.

Results:
* `length_lt_of_readDefinition`: a definition takes at least a character.
* `length_skipGaps_le`: a gap is never longer than the text.
-/

namespace TextTemplate.Bindings

/-! ## Names and values -/

/-- A stretch of a name or a value. -/
inductive Segment where
  /-- A quoted string, by its contents. -/
  | quoted (t : Text)
  /-- A run of unquoted characters. -/
  | plain (t : Text)
  deriving DecidableEq, Repr

/-- The text that a segment contributes. -/
def Segment.text : Segment → Text
  | .quoted t => t
  | .plain t => t

/-- Read the quoted strings and the runs of characters in `p` that follow each other at the front of a
    text, as many as there are. -/
def readSegments (p : Char → Bool) (s : Text) : Except Fault (List Segment × Text) :=
  match s with
  | [] => .ok ([], [])
  | c :: r =>
    if isQuote c then
      match _h : Quoted.read c r with
      | .error f => .error f
      | .ok (t, u) => (readSegments p u).map fun (ss, v) => (.quoted t :: ss, v)
    else if p c then
      (readSegments p (r.dropWhile p)).map fun (ss, v) => (.plain (c :: r.takeWhile p) :: ss, v)
    else .ok ([], c :: r)
termination_by s.length
decreasing_by
  · have := Quoted.length_lt_of_read _h
    simp only [List.length_cons]
    omega
  · have := length_dropWhile_le p r
    simp only [List.length_cons]
    omega

/-- The name that segments spell. -/
def nameText (ss : List Segment) : Text := ss.flatMap Segment.text

/-- A text without the spaces at its end. -/
def trimEnd (t : Text) : Text := (t.reverse.dropWhile isSpace).reverse

/-- The value that segments spell: the spaces at the end of an unquoted last one do not count. -/
def valueText : List Segment → Text
  | [] => []
  | [.plain t] => trimEnd t
  | s :: ss => s.text ++ valueText ss

/-! ## Definitions -/

/-- One definition in a text of bindings. -/
structure Definition where
  /-- The text from the first character of the definition on. -/
  start : Text
  /-- The name that it defines. -/
  name : Text
  /-- The value that it gives. -/
  value : Text
  deriving DecidableEq, Repr

/-- Read the end of a definition: a newline, or a dollar sign and a comment, whose newline is left. -/
def readEnd : Text → Except Fault Text
  | '\n' :: r => .ok r
  | '$' :: r =>
    match comment? r with
    | some u => .ok u
    | none => .error ⟨r, .noEndOfLine⟩
  | s => .error ⟨s, .noEndOfLine⟩

/-- Read a definition: a name, spaces if any, a value, spaces if any, and the end. -/
def readDefinition (s : Text) : Except Fault (Definition × Text) :=
  match readSegments isBarewordChar s with
  | .error f => .error f
  | .ok ([], _) => .error ⟨s, .noBindingName⟩
  | .ok (name, r) =>
    match readSegments isValueChar (r.dropWhile isSpace) with
    | .error f => .error f
    | .ok ([], _) => .error ⟨r.dropWhile isSpace, .noBindingValue⟩
    | .ok (value, u) =>
      (readEnd (u.dropWhile isSpace)).map fun v => (⟨s, nameText name, valueText value⟩, v)

/-- Skip spaces, newlines and comments. -/
def skipGaps (s : Text) : Text :=
  match _h : comment? (s.dropWhile isGap) with
  | some r => skipGaps r
  | none => s.dropWhile isGap
termination_by s.length
decreasing_by
  have := length_le_of_comment? _h
  have := length_dropWhile_le isGap s
  omega

/-! ## Progress -/

theorem length_le_of_readSegments {p : Char → Bool} {s r : Text} {ss : List Segment}
    (h : readSegments p s = .ok (ss, r)) : r.length ≤ s.length := by
  fun_induction readSegments p s generalizing ss with
  | case1 => cases h; simp
  | case2 => simp_all
  | case3 c u hc t v hr ih =>
    obtain ⟨⟨ss', w⟩, k, e⟩ := exists_of_map_eq_ok h
    cases e
    have := ih k
    have := Quoted.length_lt_of_read hr
    simp only [List.length_cons]
    omega
  | case4 c u hc hp ih =>
    obtain ⟨⟨ss', w⟩, k, e⟩ := exists_of_map_eq_ok h
    cases e
    have := ih k
    have := length_dropWhile_le p u
    simp only [List.length_cons]
    omega
  | case5 => cases h; simp

theorem length_lt_of_readEnd {s r : Text} (h : readEnd s = .ok r) : r.length < s.length := by
  unfold readEnd at h
  split at h
  · cases h
    simp
  · split at h
    · rename_i k
      cases h
      have := length_le_of_comment? k
      simp only [List.length_cons]
      omega
    · cases h
  · cases h

theorem length_lt_of_readDefinition {s r : Text} {d : Definition}
    (h : readDefinition s = .ok (d, r)) : r.length < s.length := by
  unfold readDefinition at h
  split at h
  · cases h
  · cases h
  · rename_i name u _ hn
    split at h
    · cases h
    · cases h
    · rename_i value v _ hv
      obtain ⟨w, k, e⟩ := exists_of_map_eq_ok h
      cases e
      have := length_le_of_readSegments hn
      have := length_dropWhile_le isSpace u
      have := length_le_of_readSegments hv
      have := length_dropWhile_le isSpace v
      have := length_lt_of_readEnd k
      omega

theorem length_skipGaps_le (s : Text) : (skipGaps s).length ≤ s.length := by
  fun_induction skipGaps s with
  | case1 s r h ih =>
    have := length_le_of_comment? h
    have := length_dropWhile_le isGap s
    omega
  | case2 s h => exact length_dropWhile_le isGap s

/-! ## Whole texts -/

/-- The definitions of a text, in order, up to its end or to the fault that ends the reading. -/
def definitions (s : Text) : List Definition × Option Fault :=
  match _h : skipGaps s with
  | [] => ([], none)
  | c :: r =>
    match _k : readDefinition (c :: r) with
    | .error f => ([], some f)
    | .ok (d, u) => (definitions u).map (d :: ·) id
termination_by s.length
decreasing_by
  all_goals
    have := length_lt_of_readDefinition _k
    have := length_skipGaps_le s
    rw [_h] at this
    omega

/-- Bind the names of definitions, in order; a name that is bound already is refused. -/
def defineAll (b : Bindings) : List Definition → Except Defect Bindings
  | [] => .ok b
  | d :: ds =>
    match b.define? d.name d.value with
    | none => .error ⟨d.start, .redefinition d.name⟩
    | some b' => defineAll b' ds

/-- The bindings that a text defines, or its first defect: a name defined twice comes before a fault
    that follows it. -/
def read (s : Text) : Except Defect Bindings :=
  match defineAll empty (definitions s).1, (definitions s).2 with
  | .error d, _ => .error d
  | .ok _, some f => .error f.defect
  | .ok b, none => .ok b

/-- The bindings that the text of the named source defines. -/
def parse (source text : Text) : Except SourceError Bindings :=
  (read text).mapError (Defect.inSource source text)

end TextTemplate.Bindings

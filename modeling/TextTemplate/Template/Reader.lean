import TextTemplate.Template.Basic
import TextTemplate.Text.Quoted

/-!
# Reading templates

The grammar of templates, read off the text alone. An expansion is read up to its end, whatever it will stand
for; words and directives nest to any depth, and the readers call each other on ever shorter texts, which a
`Reading` records. Where the grammar fails, everything complete before is kept in a `Truncation`.
-/

namespace TextTemplate

/-! ## Expansions and words -/

mutual

/-- Read an expansion whose dollar sign stands just in front of the text. -/
def readExpansion (s : Text) : Except Truncation (Reading Expansion (s.length + 1)) :=
  match s with
  | '(' :: r =>
    match readWords (r.dropWhile isGap) with
    | .error t => .error t
    | .ok ⟨words, u, h⟩ =>
      .ok ⟨.directive ('$' :: s) words, u, by
        have := length_dropWhile_le isGap r
        simp only [List.length_cons]
        omega⟩
  | '{' :: r =>
    match readWord r with
    | .error t => .error t
    | .ok none => .error (.ofFault ⟨r, .noVariableName⟩)
    | .ok (some ⟨name, u, h⟩) =>
      match u with
      | [] => .error ⟨name, u, .noVariableEnd⟩
      | c :: v =>
        if c = '}' then
          .ok ⟨.reference ('$' :: s) name, v, by
            simp only [List.length_cons] at h ⊢
            omega⟩
        else .error ⟨name, u, .noVariableEnd⟩
  | '$' :: r => .ok ⟨.dollar, r, by simp only [List.length_cons]; omega⟩
  | '\n' :: r => .ok ⟨.join, r, by simp only [List.length_cons]; omega⟩
  | '-' :: '-' :: r =>
    .ok ⟨.comment, r.dropWhile isLineChar, by
      have := length_dropWhile_le isLineChar r
      simp only [List.length_cons]
      omega⟩
  | _ => .error (.ofFault ⟨s, .noExpansion⟩)
-- One number and not a pair: so a given text is read by evaluation, in the kernel too.
termination_by 3 * s.length
decreasing_by
  all_goals
    simp only [List.length_cons]
    have := length_dropWhile_le isGap
    grind

/-- Read a part of a word: a quoted string, an expansion or a run of bareword characters. Nothing if none
    of these starts here. -/
def readPart (s : Text) : Except Truncation (Option (Reading Part s.length)) :=
  match s with
  | [] => .ok none
  | c :: r =>
    if c = '$' then
      match readExpansion r with
      | .error t => .error t
      | .ok ⟨e, u, h⟩ => .ok (some ⟨.expansion e, u, h⟩)
    else if isQuote c then
      match h : Quoted.read c r with
      | .error f => .error (.ofFault f)
      | .ok (t, u) =>
        .ok (some ⟨.text t, u, by
          have := Quoted.length_lt_of_read h
          grind⟩)
    else if isBarewordChar c then
      .ok (some ⟨.text (c :: r.takeWhile isBarewordChar), r.dropWhile isBarewordChar, by
        have := length_dropWhile_le isBarewordChar r
        grind⟩)
    else .ok none
termination_by 3 * s.length
decreasing_by grind

/-- Read a word: as many parts as follow each other. Nothing if no part starts here. -/
def readWord (s : Text) : Except Truncation (Option (Reading Word s.length)) :=
  match readPart s with
  | .error t => .error t
  | .ok none => .ok none
  | .ok (some ⟨p, r, h⟩) =>
    match readWord r with
    | .error t => .error (t.after [p])
    | .ok none => .ok (some ⟨[p], r, h⟩)
    | .ok (some ⟨ps, u, k⟩) => .ok (some ⟨p :: ps, u, by omega⟩)
termination_by 3 * s.length + 1

/-- Read the words of a directive, from the front of a word or of the closing parenthesis on, up to and
    with the parenthesis. -/
def readWords (s : Text) : Except Truncation (Reading (List Word) s.length) :=
  match readWord s with
  | .error t => .error t
  | .ok none =>
    match s with
    | ')' :: r => .ok ⟨[], r, by grind⟩
    | _ => .error (.ofFault ⟨s, .noDirectiveWord⟩)
  | .ok (some ⟨w, r, h⟩) =>
    match r with
    | [] => .error ⟨w, r, .noDirectiveEnd⟩
    | c :: u =>
      if c = ')' then .ok ⟨[w], u, by grind⟩
      else if isGap c then
        match readWords (u.dropWhile isGap) with
        | .error t => .error (t.after w)
        | .ok ⟨ws, v, k⟩ =>
          .ok ⟨w :: ws, v, by
            have := length_dropWhile_le isGap u
            grind⟩
      else .error ⟨w, r, .noDirectiveEnd⟩
termination_by 3 * s.length + 2
decreasing_by
  all_goals
    have := fun p r => length_dropWhile_le p r
    grind

end

/-! ## Lines -/

/-- Read the parts of a line, up to and with its newline or to the end of the text. -/
def readLineParts (s : Text) : Except Truncation (Reading (List Part) (max 1 s.length)) :=
  match s with
  | [] => .ok ⟨[], [], by simp⟩
  | c :: r =>
    if c = '\n' then .ok ⟨[], r, by grind⟩
    else if c = '$' then
      match readExpansion r with
      | .error t => .error t
      | .ok ⟨e, u, h⟩ =>
        match readLineParts u with
        | .error t => .error (t.after [.expansion e])
        | .ok ⟨ps, v, k⟩ => .ok ⟨.expansion e :: ps, v, by grind⟩
    else
      match readLineParts (r.dropWhile isLiteralChar) with
      | .error t => .error t
      | .ok ⟨ps, v, k⟩ =>
        .ok ⟨.text (c :: r.takeWhile isLiteralChar) :: ps, v, by
          have := length_dropWhile_le isLiteralChar r
          grind⟩
termination_by s.length
decreasing_by
  all_goals
    have := fun p r => length_dropWhile_le p r
    grind

/-- Skip a comment that a dollar sign starts, with the newline after it if there is one. Nothing if none
    starts here. -/
def skipCommentLine? : Text → Option Text
  | '$' :: r => (comment? r).map (List.drop 1)
  | _ => none

theorem length_lt_of_skipCommentLine? {s r : Text} (h : skipCommentLine? s = some r) :
    r.length < s.length := by
  unfold skipCommentLine? at h
  split at h
  · obtain ⟨u, hu, rfl⟩ := Option.map_eq_some_iff.1 h
    have := length_le_of_comment? hu
    simp only [List.length_cons, List.length_drop]
    omega
  · cases h

/-- Read a line: its indentation and either a comment alone or the parts up to its end. -/
def readLine (s : Text) : Except Truncation (Reading Line (max 1 s.length)) :=
  match h : skipCommentLine? (s.dropWhile isBlank) with
  | some r =>
    .ok ⟨.elided, r, by
      have := length_lt_of_skipCommentLine? h
      have := length_dropWhile_le isBlank s
      grind⟩
  | none =>
    match readLineParts (s.dropWhile isBlank) with
    | .error t => .error t
    | .ok ⟨ps, r, k⟩ =>
      .ok ⟨.content (s.takeWhile isBlank) ps, r, by
        have := length_dropWhile_le isBlank s
        grind⟩

/-- Read a template: lines up to the end of the text. -/
def Template.read (s : Text) : Except Truncation Template :=
  match s with
  | [] => .ok []
  | c :: r =>
    match readLine (c :: r) with
    | .error t => .error t
    | .ok ⟨l, u, _⟩ =>
      match Template.read u with
      | .error t => .error (t.after l.parts)
      | .ok ls => .ok (l :: ls)
termination_by s.length
decreasing_by grind

end TextTemplate

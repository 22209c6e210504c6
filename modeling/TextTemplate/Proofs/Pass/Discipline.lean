import TextTemplate.Proofs.Pass.Agreement

/-!
# The discipline of the cursor

A pass over a text never goes backwards, and each action that has something to take takes it. From every rest of the
text an action ends with its cursor in that rest, and what it refuses is a rest whose place can be told, as a number of
bytes after which a character starts. An action that succeeds and a turn of a loop that is followed by another leave
less text than there was, so no loop goes on for ever: there is room for all calls and turns if five for each character
may be nested, and a few more. What the pass over a whole text ends with is what its expansion ends with.

Main results:
* `isLocatable_of_suffix`: the place of a rest of the text can be told.
* `outcome_lines`, `outcome_lines_expand`: a pass over a whole text ends as its expansion does.
* `cursor_discipline`: each action and each turn, and the pass over the whole text.
-/

namespace TextTemplate.Pass

/-! ## Specification -/

/-- The place of a rest can be told: it has no more bytes than the whole text, and behind as many bytes as are in front
    of it a character starts, so that the text in front is known and with it the line and the column. -/
structure IsLocatable (whole rest : Text) : Prop where
  /-- The bytes in front of the rest are not fewer than none. -/
  bytes_le : rest.utf8Length ≤ whole.utf8Length
  /-- They end where a character starts. -/
  boundary : (String.Pos.Raw.mk (whole.utf8Length - rest.utf8Length)).IsValid (String.ofList whole)
  /-- The position is the one of the rest. -/
  located : Position.locate? whole rest = some (.before whole rest)

/-- From `s` an action ends with its cursor in `s`. If it fails at a place of the text itself, the place can be told and
    is one of `s`, or it is `start`, the text from its dollar sign on, where the action is given that beside the cursor.
    Of a result and the text that is left then, `P` holds. -/
def IsDisciplined {α : Type} (p : Pass) (x : Action α) (start : Option Text) (s : Text)
    (P : α → Text → Prop) : Prop :=
  Keeps x s (fun u => (u <:+ s ∨ start = some u) ∧ IsLocatable p.whole u) P

/-- So many calls and turns are enough for the text of a pass. -/
def room (p : Pass) : Nat := 5 * p.whole.length + 5

/-- The discipline of the cursor in a pass where so many calls and turns may be nested, for every rest of its text. -/
structure KeepsDiscipline (p : Pass) (n : Nat) : Prop where
  /-- Whatever is left, a line goes forwards. -/
  line : ∀ s, s <:+ p.whole → p.IsDisciplined (p.line n) none s fun _ r => s ≠ [] → r.length < s.length
  /-- An expansion goes forwards. -/
  expansion : ∀ s, s <:+ p.whole → p.IsDisciplined (p.expansion n) none s fun _ r => r.length < s.length
  /-- A directive goes forwards. -/
  directive : ∀ start s, start <:+ p.whole → s <:+ p.whole →
    p.IsDisciplined (p.directive n start) (some start) s fun _ r => r.length < s.length
  /-- A reference goes forwards. -/
  reference : ∀ start s, start <:+ p.whole → s <:+ p.whole →
    p.IsDisciplined (p.reference n start) (some start) s fun _ r => r.length < s.length
  /-- A name goes forwards. -/
  name : ∀ missing s, s <:+ p.whole →
    p.IsDisciplined (p.name n missing 0) none s fun _ r => r.length < s.length
  /-- Line after line the text is gone through to its end. -/
  lines : ∀ s, s <:+ p.whole → p.IsDisciplined (p.lines n) none s fun _ r => r = []
  /-- A line that another turn may follow goes forwards; without a turn the text is at its end. -/
  lineTurn : ∀ s, s <:+ p.whole → p.IsDisciplined (p.lineTurn n) none s fun o r =>
    (o.isSome = true → r.length < s.length) ∧ (o = none → r = [])
  /-- A part of a line goes forwards. -/
  pieceTurn : ∀ s, s <:+ p.whole → p.IsDisciplined (p.pieceTurn n) none s fun o r =>
    o.isSome = true → r.length < s.length
  /-- So does a word of a directive, and the parenthesis behind the last one. -/
  wordTurn : ∀ separated s, s <:+ p.whole →
    p.IsDisciplined (p.wordTurn n separated) none s fun _ r => r.length < s.length
  /-- So does a part of a name. -/
  nameTurn : ∀ missing parts s, s <:+ p.whole →
    p.IsDisciplined (p.nameTurn n missing parts) none s fun o r => o.isSome = true → r.length < s.length

/-! ## Room -/

/-- There is room for whatever calls and turns are made from a rest of the text. -/
theorem lt_room {p : Pass} {s : Text} (k n : Nat) (hk : k < 5) (hs : s <:+ p.whole) :
    5 * s.length + k < p.room + n := by
  have hle := hs.length_le
  rw [room]
  omega

/-! ## Places -/

theorem isLocatable_of_suffix {whole rest : Text} (h : rest <:+ whole) : IsLocatable whole rest := by
  obtain ⟨pre, rfl⟩ := h
  have hbytes : Text.utf8Length (pre ++ rest) - rest.utf8Length = Text.utf8Length pre := by
    rw [Text.utf8Length_append, Nat.add_sub_cancel]
  refine ⟨?_, ?_, Position.locate?_append pre rest⟩
  · rw [Text.utf8Length_append]
    exact Nat.le_add_left _ _
  · rw [hbytes]
    exact Text.isValid_utf8Length pre rest

section Actions

variable {α : Type} {p : Pass} {x : Action α} {s : Text} {P : α → Text → Prop}

theorem Keeps.isDisciplined (h : Keeps x s (· <:+ s) P) (hs : s <:+ p.whole) : p.IsDisciplined x none s P :=
  h.mono (fun _ hu => ⟨.inl hu, isLocatable_of_suffix (hu.trans hs)⟩) fun _ _ ha => ha

theorem Keeps.isDisciplined_from {start : Text} (h : Keeps x s (fun u => u <:+ s ∨ u = start) P)
    (hstart : start <:+ p.whole) (hs : s <:+ p.whole) : p.IsDisciplined x (some start) s P := by
  refine h.mono (fun u hu => ?_) fun _ _ ha => ha
  rcases hu with hu | rfl
  · exact ⟨.inl hu, isLocatable_of_suffix (hu.trans hs)⟩
  · exact ⟨.inr rfl, isLocatable_of_suffix hstart⟩

end Actions

/-! ## The pass over a whole text -/

/-- A pass over a whole text ends, and as its expansion does. -/
theorem outcome_lines (p : Pass) (n : Nat) (source : Text) :
    ∃ result r, outcome (p.lines (p.room + n)) p.whole = some (result, r) ∧
      result.mapError (Failure.inSource source p.whole) =
        ((p.context.expandGiven p.expander source p.whole).run p.files).result := by
  have hsettled := settled_lines (p.room + n) p.whole List.suffix_rfl (lt_room 2 n (by decide) List.suffix_rfl)
  obtain ⟨⟨result, r⟩, hout, hend⟩ := Option.map_eq_some_iff.1 hsettled
  refine ⟨result, r, hout, ?_⟩
  have hresult : result = p.result (evalText p.meaning p.whole) := by
    cases hexpansion : p.result (evalText p.meaning p.whole) with
    | ok t =>
      rw [hexpansion] at hend
      cases result <;> cases hend
      rfl
    | error e =>
      rw [hexpansion] at hend
      cases result <;> cases hend
      rfl
  rw [Context.expandGiven_eq, Inquiry.run_mapError, hresult]
  rfl

/-- Where included files are expanded as any text is, it ends as the expansion with all its includes does. -/
theorem outcome_lines_expand (c : Context) (files : Files) (n : Nat) (source text : Text) :
    let p : Pass := ⟨c, Context.expandIncluded, files, text⟩
    ∃ result r, outcome (p.lines (p.room + n)) text = some (result, r) ∧
      result.mapError (Failure.inSource source text) = ((c.expand source text).run files).result := by
  rw [Context.expand_eq]
  exact outcome_lines ⟨c, Context.expandIncluded, files, text⟩ n source

theorem keepsDiscipline (p : Pass) (n : Nat) : p.KeepsDiscipline (p.room + n) where
  line s hs := (keeps_line _ s hs (lt_room 1 n (by decide) hs)).isDisciplined hs
  expansion s hs := (keeps_expansion _ s hs (lt_room 0 n (by decide) hs)).isDisciplined hs
  directive start s hstart hs :=
    (keeps_directive _ start s hstart hs (lt_room 0 n (by decide) hs)).isDisciplined_from hstart hs
  reference start s hstart hs :=
    (keeps_reference _ start s hstart hs (lt_room 0 n (by decide) hs)).isDisciplined_from hstart hs
  name missing s hs :=
    ((keeps_name _ missing 0 s hs (lt_room 2 n (by decide) hs)).imp fun _ _ h => h rfl).isDisciplined hs
  lines s hs := (keeps_lines _ s hs (lt_room 2 n (by decide) hs)).isDisciplined hs
  lineTurn s hs := (keeps_lineTurn _ s hs (lt_room 1 n (by decide) hs)).isDisciplined hs
  pieceTurn s hs :=
    ((keeps_pieceTurn _ s hs (lt_room 0 n (by decide) hs)).imp fun _ _ h ho => h (.inl ho)).isDisciplined hs
  wordTurn separated s hs := (keeps_wordTurn _ separated s hs (lt_room 3 n (by decide) hs)).isDisciplined hs
  nameTurn missing parts s hs :=
    ((keeps_nameTurn _ missing parts s hs (lt_room 1 n (by decide) hs)).imp fun _ _ h => h.1).isDisciplined hs

/-- The cursor keeps its discipline in every pass, however many calls may be nested beyond those that there is room
    for, and so the pass over a whole text comes to an end, with what the expansion of the text ends with. -/
theorem cursor_discipline (p : Pass) (n : Nat) :
    p.KeepsDiscipline (p.room + n) ∧
      ∀ source, ∃ result r, outcome (p.lines (p.room + n)) p.whole = some (result, r) ∧
        result.mapError (Failure.inSource source p.whole) =
          ((p.context.expandGiven p.expander source p.whole).run p.files).result :=
  ⟨p.keepsDiscipline n, p.outcome_lines n⟩

end TextTemplate.Pass

import TextTemplate.CommandLine.Command
import TextTemplate.Proofs.Bindings.Map
import TextTemplate.Proofs.Inquiry
import TextTemplate.Proofs.Json.Values

/-!
# Bindings written as JSON and read again

Bindings are written as an object whose members are the entries, in the order of their names, whether compactly or over
several lines. Read again, any text of such an object gives the same bindings, so the text tells which bindings it was
written for.

Main results:
* `objectText_compact`, `objectText_pretty`: what is written for bindings.
* `ofJson?_eq_some_iff`: which texts are read as which bindings.
* `json_reads_back`: bindings that are written and read.
-/

namespace TextTemplate.Bindings

/-! ## Texts of bindings -/

theorem objectText_compact (b : Bindings) : Json.ObjectText b.entries b.toJson.compact :=
  Json.objectText_iff.2 (Json.valueText_compact b.toJson).padded

theorem objectText_pretty (b : Bindings) : Json.ObjectText b.entries b.toJson.pretty :=
  Json.objectText_iff.2 (Json.valueText_prettyAt b.toJson 0).padded

/-- A text is read as bindings exactly where it is that of an object of strings, and the last of each name counts. -/
theorem ofJson?_eq_some_iff {s : Text} {b : Bindings} :
    ofJson? s = some b ↔ ∃ ms, Json.ObjectText ms s ∧ ofList ms = b := by
  simp only [ofJson?, Option.map_eq_some_iff, Json.stringMembers?_eq_some_iff]

/-- No name is listed twice, so it does not matter whether the first or the last counts. -/
theorem ofList_entries (b : Bindings) : ofList b.entries = b := by
  have hreverse : b.entries.reverse.Pairwise (·.1 ≠ ·.1) :=
    List.pairwise_reverse.2 (b.pairwise_entries.imp Ne.symm)
  refine ext_get? fun n => Option.ext fun e => ?_
  rw [get?_ofList, lookup_eq_some_iff_mem hreverse, List.mem_reverse, mem_entries_iff]

theorem ofJson?_of_objectText {s : Text} {b : Bindings} (h : Json.ObjectText b.entries s) : ofJson? s = some b :=
  ofJson?_eq_some_iff.2 ⟨b.entries, h, b.ofList_entries⟩

/-- A text is written for one map of bindings at most. -/
theorem eq_of_objectText {s : Text} {b c : Bindings} (hb : Json.ObjectText b.entries s)
    (hc : Json.ObjectText c.entries s) : c = b := by
  have hread := ofJson?_of_objectText hc
  rw [ofJson?_of_objectText hb] at hread
  exact (Option.some.inj hread).symm

/-! ## Main theorem -/

/-- Bindings are read again from what is written for them, compactly or over several lines, and from what the program
    prints when it lists them as JSON. Bindings for which the same text is written are equal. And the members of the
    object that stands in the text are the entries, with their names in strictly increasing order. -/
theorem json_reads_back (b : Bindings) :
    ofJson? b.toJson.compact = some b ∧
    ofJson? b.toJson.pretty = some b ∧
    (∀ colored path files, ((Session.loadFile path).run files).result = .ok b →
      ∃ output, (((CommandLine.Command.vars path true).run colored).run files).result =
        .ok (.exit CommandLine.exitOk output []) ∧ ofJson? output = some b) ∧
    (∀ c : Bindings, c.toJson.compact = b.toJson.compact ∨ c.toJson.pretty = b.toJson.pretty → c = b) ∧
    (∀ members, Json.ObjectText members b.toJson.compact ↔ members = b.entries) ∧
    (∀ members, Json.ObjectText members b.toJson.pretty ↔ members = b.entries) ∧
    (b.entries.map Prod.fst).Pairwise (· < ·) := by
  have hcompact := b.objectText_compact
  have hpretty := b.objectText_pretty
  refine ⟨ofJson?_of_objectText hcompact, ofJson?_of_objectText hpretty, ?_, ?_, fun members => ?_, fun members => ?_,
    b.pairwise_names⟩
  · intro colored path files hload
    have hnewline : Json.Blanks ['\n'] := List.forall_mem_singleton.2 rfl
    refine ⟨b.toJson.pretty ++ ['\n'], ?_, ofJson?_of_objectText (hpretty.append_blanks hnewline)⟩
    rw [CommandLine.Command.run, Inquiry.run_attempt_bind, hload]
    rfl
  · rintro c (hsame | hsame)
    · rw [← hsame] at hcompact
      exact eq_of_objectText hcompact c.objectText_compact
    · rw [← hsame] at hpretty
      exact eq_of_objectText hpretty c.objectText_pretty
  · exact ⟨fun h => h.unique hcompact, fun h => h ▸ hcompact⟩
  · exact ⟨fun h => h.unique hpretty, fun h => h ▸ hpretty⟩

end TextTemplate.Bindings

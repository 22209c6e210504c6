import TextTemplate.Files.Memory
import TextTemplate.Proofs.Bindings.Lines
import TextTemplate.Proofs.Inclusion.Separation
import TextTemplate.Proofs.Template.Join
import TextTemplate.Proofs.Text.Quoted

/-!
# References to defined names

A name that bindings define is spelled by quoted strings and barewords, so it holds nothing that a quoted string
cannot spell again. A template refers to it by that one string, between braces.

Main results:
* `Bindings.exists_of_parse`: what a defined name is bound to, and which characters it has.
* `Context.run_referenceTo`: a text that is one reference.
* `Context.reference_of_parse`: every defined name can be referred to.
-/

namespace TextTemplate

/-- A reference to the name that a word spells. -/
def referenceTo (word : Text) : Text := '$' :: '{' :: (word ++ ['}'])

/-! ## Defined names -/

namespace Bindings

theorem canSpell_of_isBarewordChar {c : Char} (h : isBarewordChar c = true) : Quoted.CanSpell c := by
  simp only [isBarewordChar, Bool.and_eq_true, decide_eq_true_eq] at h
  exact .inl (Std.le_of_lt h.1)

theorem SegmentsAt.canSpell {p : Char → Bool} (hp : ∀ c, p c = true → Quoted.CanSpell c)
    {ss : List Segment} {s r : Text} (h : SegmentsAt p ss s r) :
    ∀ c ∈ ss.flatMap Segment.text, Quoted.CanSpell c := by
  induction h with
  | nil => simp
  | quoted _ hw _ ih =>
    rw [List.flatMap_cons, List.forall_mem_append]
    exact ⟨hw.canSpell, ih⟩
  | plain hrun _ _ ih =>
    rw [List.flatMap_cons, List.forall_mem_append]
    exact ⟨fun c hc => hp c (hrun.all c hc), ih⟩

theorem BindsAt.canSpell_name {name value s e : Text} (h : BindsAt name value s e) :
    ∀ c ∈ name, Quoted.CanSpell c := by
  cases h with
  | intro hname => exact hname.canSpell fun _ => canSpell_of_isBarewordChar

/-- The definitions of a text stand in it as names and values. -/
theorem bindsAt_of_mem_definitions {s : Text} {d : Definition} (h : d ∈ (definitions s).1) :
    ∃ e, BindsAt d.name d.value d.start e := by
  fun_induction definitions s with
  | case1 => cases h
  | case2 => cases h
  | case3 s c r hs d' u hd ih =>
    rcases List.mem_cons.1 h with rfl | h
    · obtain ⟨hstart, e, hbinds, -⟩ := readDefinition_eq_ok_iff.1 hd
      exact ⟨e, hstart ▸ hbinds⟩
    · exact ih h

/-- A defined name is bound to itself, a space and its value, and quoted strings can spell it. -/
theorem exists_of_parse {source text : Text} {m : Bindings} (hm : parse source text = .ok m)
    {n e : Text} (hn : m.get? n = some e) :
    (∃ v, e = n ++ ' ' :: v) ∧ ∀ c ∈ n, Quoted.CanSpell c := by
  obtain ⟨ds, hds, hbind⟩ := parse_eq_ok_iff.1 hm
  rcases (get?_defineAll hbind).1 hn with hempty | ⟨d, hd, rfl, rfl⟩
  · cases hempty
  · have hmem : d ∈ (definitions text).1 := by
      rw [hds]
      exact hd
    obtain ⟨e, hbinds⟩ := bindsAt_of_mem_definitions hmem
    exact ⟨⟨d.value, rfl⟩, hbinds.canSpell_name⟩

end Bindings

/-! ## A text of one reference -/

/-- A text that is one reference is a template of one line. -/
theorem Template.derives_referenceTo {word : Text} {w : Word} (hw : WordAt w (word ++ ['}']) ['}']) :
    Template.Derives [.content [] [.expansion (.reference (referenceTo word) w)]] (referenceTo word) := by
  have hblank : IsRun isBlank (referenceTo word) [] (referenceTo word) :=
    ⟨rfl, by simp, by simp [referenceTo, isBlank]⟩
  have hcomment : ¬ ['$', '-', '-'] <+: referenceTo word := by simp [referenceTo]
  exact .cons (.content hblank hcomment (.cons (.expansion (.reference hw)) .nil) .endOfText)
    (List.cons_ne_nil _ _).symm .nil

/-- A closing brace ends a word. -/
theorem wordAt_singleton {p : Part} {s : Text} (h : PartAt p s ['}']) : WordAt [p] s ['}'] := by
  refine .last h fun c hc => ?_
  cases hc
  decide

namespace Context

/-- A text that is one reference yields what its name is bound to, as a line, and reads no file. -/
theorem run_referenceTo (c : Context) {n e word : Text} (hn : c.bindings.get? n = some e)
    (hword : PartAt (.text n) (word ++ ['}']) ['}']) (files : Files) (source : Text) :
    (c.expand source (referenceTo word)).run files = ⟨[], .ok (e ++ ['\n'])⟩ := by
  have hlook : c.meaning.reference (referenceTo word) n = .pure e := by
    show c.lookUp _ n = _
    rw [lookUp, hn]
    rfl
  have hreference : (Expansion.reference (referenceTo word) [.text n]).eval c.meaning = .pure e := by
    rw [Expansion.eval, evalParts_singleton]
    exact hlook
  rw [expand_eq_of_derives (Template.derives_referenceTo (wordAt_singleton hword)) c source,
    Template.eval_cons, Line.eval_content, evalParts_cons, Part.eval, hreference]
  simp [Inquiry.bind, evalParts, Template.eval, pure, Inquiry.mapError]

/-! ## Main theorem -/

/-- Every name that a text of bindings defines is bound to itself, a space and its value, and a template that is one
    reference to it yields that as a line: by the name in quotes of either kind, and by the name as it is if that is a
    bareword. -/
theorem reference_of_parse {source text : Text} {m : Bindings} (hm : Bindings.parse source text = .ok m)
    {n e : Text} (hn : m.get? n = some e) :
    (∃ v, e = n ++ ' ' :: v) ∧
    ∀ (c : Context) (files : Files) (source' : Text), c.bindings = m →
      (∀ q, isQuote q = true →
        (c.expand source' (referenceTo (Quoted.encode q n))).run files = ⟨[], .ok (e ++ ['\n'])⟩) ∧
      (n ≠ [] → (∀ d ∈ n, isBarewordChar d = true) →
        (c.expand source' (referenceTo n)).run files = ⟨[], .ok (e ++ ['\n'])⟩) := by
  obtain ⟨hvalue, hspell⟩ := Bindings.exists_of_parse hm hn
  refine ⟨hvalue, fun c files source' hc => ⟨fun q hq => ?_, fun hne hbare => ?_⟩⟩
  · have hpart : PartAt (.text n) (Quoted.encode q n ++ ['}']) ['}'] := by
      rw [Quoted.encode, List.cons_append, List.cons_append, List.append_assoc]
      exact .quoted hq (Quoted.writes_encodeBody hq hspell)
    exact run_referenceTo c (hc ▸ hn) hpart files source'
  · have hrun : IsRun isBarewordChar (n ++ ['}']) n ['}'] := by
      refine ⟨rfl, hbare, fun d hd => ?_⟩
      cases hd
      decide
    exact run_referenceTo c (hc ▸ hn) (.bareword hrun hne) files source'

/-- A name with a quote, a dollar sign, a newline, a brace and a backslash. -/
theorem reference_of_parse_delimiters :
    ∃ m, Bindings.parse [] "x\"'$\\n\x7d\"'\\\\' v\n".toList = .ok m ∧
      m.get? "x'$\n\x7d\\".toList = some "x'$\n\x7d\\ v".toList ∧
      ((ofRoot m ⟨"r".toList⟩).expand "r".toList "$\x7b'x\\'$\\n\x7d\\\\'\x7d".toList).run
        (FileTable.ofList []).read = ⟨[], .ok "x'$\n\x7d\\ v\n".toList⟩ := by
  have hm : Bindings.parse [] "x\"'$\\n\x7d\"'\\\\' v\n".toList =
      .ok (.ofList [("x'$\n\x7d\\".toList, "x'$\n\x7d\\ v".toList)]) := by
    decide +kernel
  have hn : Bindings.get? (.ofList [("x'$\n\x7d\\".toList, "x'$\n\x7d\\ v".toList)])
      "x'$\n\x7d\\".toList = some "x'$\n\x7d\\ v".toList := by
    decide
  obtain ⟨-, hreference⟩ := reference_of_parse hm hn
  exact ⟨_, hm, hn, (hreference (ofRoot _ ⟨"r".toList⟩) _ _ rfl).1 '\'' (by decide)⟩

end Context

end TextTemplate

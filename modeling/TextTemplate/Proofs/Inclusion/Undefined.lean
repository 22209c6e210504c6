import TextTemplate.Proofs.Bindings.Map
import TextTemplate.Proofs.Inclusion.Cycle
import TextTemplate.Proofs.References
import TextTemplate.Proofs.Suggestions

/-!
# References to nothing that is bound

Nothing but a reference complains of an undefined name, and its name is what its word comes to. With the error come
suggestions: the best near misses among the bound names. What is suggested is bound, so a reference that spells it
instead, in the same place, does not complain again.

Main results:
* `exists_reference_of_undefined`: the reference that an error complains of.
* `Context.Spells.unique`, `Context.spells_encode`: what a word spells.
* `not_undefined_of_spells`: a reference to what is bound.
* `suggestions_of_undefined`: what is suggested, and what becomes of it.
-/

namespace TextTemplate

/-! ## Specification -/

/-- Between the braces of a reference, with `post` behind it, the text is a word that comes to the name. -/
def Context.Spells (c : Context) (files : Files) (word post name : Text) : Prop :=
  ∃ w, WordAt w (word ++ '}' :: post) ('}' :: post) ∧ ((evalParts c.meaning w).run files).result = .ok name

/-- The text fails because the reference that stands where `u` is left is one to an undefined name. -/
def Context.Undefined (c : Context) (files : Files) (s u name : Text) (names : List Text) : Prop :=
  ((evalText c.meaning s).run files).result = .error (.here ⟨u, .undefinedVariable name names⟩)

/-! ## The reference that an error complains of -/

namespace Context

variable {c : Context} {files files' : Files}

/-- A reference complains of its own name, and only if it is not bound. -/
theorem undefined_of_lookUp {start t u name : Text} {names : List Text}
    (h : ((c.lookUp start t).run files).result = .error (.here ⟨u, .undefinedVariable name names⟩)) :
    u = start ∧ name = t ∧ c.bindings.get? t = none ∧ names = suggestions t c.bindings.names := by
  unfold lookUp at h
  split at h
  · cases h
  · rename_i hnone
    cases h
    exact ⟨rfl, rfl, hnone, rfl⟩

/-- No directive complains of an undefined name. -/
theorem command_not_undefined {e : Expander} {start u name : Text} {words names : List Text} :
    ((c.command (c.within e) start words).run files).result ≠ .error (.here ⟨u, .undefinedVariable name names⟩) := by
  intro h
  rcases command_cases words with rfl | ⟨cause, hcause, hrefuse⟩ | ⟨file, hfile, rfl⟩
  · cases h
  · rw [hrefuse] at h
    cases h
    cases hcause
  · rw [command_include _ _ _ hfile, within] at h
    split_ifs at h
    · rcases cause_of_includeFirst h with hcause | ⟨p, -, -, hcause⟩
      · cases hcause
      · cases hcause
    · cases h

theorem referenceTo_append (word post : Text) : referenceTo word ++ post = '$' :: '{' :: (word ++ '}' :: post) := by
  simp [referenceTo]

/-- A text complains of an undefined name at a reference to it. -/
theorem exists_reference_of_undefined {s u name : Text} {names : List Text} (h : c.Undefined files s u name names) :
    u <:+ s ∧ (∃ word post, u = referenceTo word ++ post ∧ c.Spells files word post name) ∧
      c.bindings.get? name = none ∧ names = suggestions name c.bindings.names := by
  obtain ⟨e, he, hseen⟩ := evalText_seenAt (Inquiry.isEvent_failure files _) (fun f hf => by cases hf) h
  cases hseen with
  | directive _ hcommand => exact absurd hcommand command_not_undefined
  | reference ht hlook =>
    obtain ⟨rfl, rfl, hnone, hnames⟩ := undefined_of_lookUp hlook
    obtain ⟨v, post, hv, hat⟩ := he.expansionAt
    cases hat with
    | reference hword =>
      obtain ⟨word, rfl⟩ := hword.starts.1
      exact ⟨hv, ⟨word, post, (referenceTo_append word post).symm, _, hword, ht⟩, hnone, hnames⟩

/-! ## What a word spells -/

/-- A reference is one to one name. -/
theorem Spells.unique {word word' post post' name name' : Text} (h : c.Spells files word post name)
    (h' : c.Spells files word' post' name') (heq : referenceTo word ++ post = referenceTo word' ++ post') :
    name = name' := by
  obtain ⟨w, hw, hname⟩ := h
  obtain ⟨w', hw', hname'⟩ := h'
  have hat := ExpansionAt.reference hw
  rw [← referenceTo_append, heq, referenceTo_append] at hat
  obtain ⟨hsame, -⟩ := hat.unique (.reference hw')
  cases hsame
  rw [hname] at hname'
  cases hname'
  rfl

/-- In quotes every name is spelled whose characters a quoted string can spell. -/
theorem spells_encode (c : Context) (files : Files) {q : Char} (hq : isQuote q = true) {name : Text}
    (hname : ∀ d ∈ name, Quoted.CanSpell d) (post : Text) : c.Spells files (Quoted.encode q name) post name := by
  have hpart : PartAt (.text name) (Quoted.encode q name ++ '}' :: post) ('}' :: post) := by
    rw [Quoted.encode, List.cons_append, List.cons_append, List.append_assoc]
    exact .quoted hq (Quoted.writes_encodeBody hq hname)
  refine ⟨[.text name], .last hpart ?_, ?_⟩
  · intro d hd
    cases hd
    decide
  · rw [evalParts_singleton]
    rfl

/-- A reference to what is bound does not complain of an undefined name. -/
theorem not_undefined_of_spells {s word post name expansion : Text} (hbound : c.bindings.get? name = some expansion)
    (hspells : c.Spells files word post name) (m : Text) (ms : List Text) :
    ¬ c.Undefined files s (referenceTo word ++ post) m ms := by
  intro h
  obtain ⟨-, ⟨word', post', heq, hspells'⟩, hnone, -⟩ := exists_reference_of_undefined h
  obtain rfl := hspells.unique hspells' heq
  rw [hbound] at hnone
  cases hnone

end Context

/-! ## Errors of whole expansions -/

/-- An expansion complains of an undefined name at a reference to it, in its own text or in that of an included file. -/
theorem exists_reached_of_undefined {files : Files} {a : Call} {e : SourceError} {name : Text} {names : List Text}
    (h : (a.run files).result = .error (.source e)) (hcause : e.cause = .undefinedVariable name names) :
    ∃ b pre word post, Relation.ReflTransGen (Calls files) a b ∧ b.text = pre ++ (referenceTo word ++ post) ∧
      e.location = ⟨b.source, .after pre⟩ ∧ b.context.Spells files word post name ∧
      a.context.bindings.get? name = none ∧ names = suggestions name a.context.bindings.names := by
  obtain ⟨b, d, hb, hfails, rfl⟩ := exists_reached_of_source_error files a h
  obtain ⟨u, cause⟩ := d
  obtain rfl : cause = .undefinedVariable name names := hcause
  obtain ⟨⟨pre, hpre⟩, ⟨word, post, rfl, hspells⟩, hnone, hnames⟩ := Context.exists_reference_of_undefined hfails
  rw [(settings_of_reached hb).1] at hnone hnames
  refine ⟨b, pre, word, post, hb, hpre.symm, ?_, hspells, hnone, hnames⟩
  rw [Defect.inSource, ← hpre, Position.before_append]

/-- What is suggested is bound. -/
theorem exists_get?_of_mem_suggestions {b : Bindings} {name n : Text} (h : n ∈ suggestions name b.names) :
    ∃ e, b.get? n = some e :=
  Bindings.mem_names_iff.1 (of_mem_suggestions b.nodup_names h).1

/-! ## Main theorem -/

/-- Among candidates, no two of them alike, the suggestions for a name are the first three of its near misses, ranked
    by distance and then by code points. So they do not depend on the order of the candidates, the name itself is
    not among them, and a near miss that is left out is worse than each of them.

    An expansion that complains of an undefined name does so at a reference whose word comes to that name, in its own
    text or in that of an included file, and suggests what these are among the bound names. All of them are bound. If
    the reference gets another word that comes to one of them, its text does not complain of an undefined name
    there, whatever the files hold. -/
theorem suggestions_nearest :
    (∀ (name : Text) (candidates : List Text), candidates.Nodup →
      (∃! ranking, Ranks name candidates ranking) ∧
      (∀ ranking, Ranks name candidates ranking → suggestions name candidates = ranking.take 3) ∧
      (∀ candidates' : List Text, candidates'.Perm candidates →
        suggestions name candidates' = suggestions name candidates) ∧
      name ∉ suggestions name candidates ∧
      ∀ c ∈ candidates, NearMiss name c → c ∉ suggestions name candidates →
        (suggestions name candidates).length = 3 ∧ ∀ c' ∈ suggestions name candidates, Nearer name c' c) ∧
    ∀ (files : Files) (a : Call) (e : SourceError) (name : Text) (names : List Text),
      (a.run files).result = .error (.source e) → e.cause = .undefinedVariable name names →
      names = suggestions name a.context.bindings.names ∧ a.context.bindings.names.Nodup ∧
      (∀ n ∈ names, ∃ expansion, a.context.bindings.get? n = some expansion) ∧
      ∃ b pre word post, Relation.ReflTransGen (Calls files) a b ∧ b.text = pre ++ (referenceTo word ++ post) ∧
        e.location = ⟨b.source, .after pre⟩ ∧ b.context.Spells files word post name ∧
        ∀ n ∈ names, ∀ (files' : Files) (word' : Text), b.context.Spells files' word' post n →
          ∀ m ms, ¬ b.context.Undefined files' (pre ++ (referenceTo word' ++ post)) (referenceTo word' ++ post) m ms := by
  refine ⟨fun name candidates hnodup => ⟨?_, ?_, ?_, ?_, ?_⟩, fun files a e name names h hcause => ?_⟩
  · exact ⟨_, ranks_rankedMisses name hnodup, fun _ h => h.unique (ranks_rankedMisses name hnodup) fun _ => Iff.rfl⟩
  · exact fun _ hranks => suggestions_eq_of_ranks hnodup hranks
  · exact fun _ hperm => suggestions_congr hnodup hperm
  · exact not_mem_suggestions_self hnodup
  · exact fun c hc hmiss homitted => nearer_of_omitted hnodup hc hmiss homitted
  · obtain ⟨b, pre, word, post, hb, htext, hlocation, hspells, -, rfl⟩ := exists_reached_of_undefined h hcause
    have hbound : ∀ n ∈ suggestions name a.context.bindings.names,
        ∃ expansion, a.context.bindings.get? n = some expansion := fun n hn => exists_get?_of_mem_suggestions hn
    refine ⟨rfl, a.context.bindings.nodup_names, hbound, b, pre, word, post, hb, htext, hlocation, hspells, ?_⟩
    intro n hn files' word' hspells' m ms
    obtain ⟨expansion, hexpansion⟩ := hbound n hn
    rw [← (settings_of_reached hb).1] at hexpansion
    exact Context.not_undefined_of_spells hexpansion hspells' m ms

/-- A name with two near misses, and the better one in quotes in its place. -/
theorem suggestions_nearest_banner :
    let bindings := Bindings.ofList
      [("banter".toList, "banter 2".toList), ("banner".toList, "banner 1".toList), ("ban".toList, "ban 3".toList)]
    let a := Call.ofRoot bindings [] 9 ⟨"r".toList⟩ "r".toList "x\n$\x7bbannr\x7d!".toList
    let files := (FileTable.ofList []).read
    (a.run files).result = .error (.source ⟨⟨"r".toList, ⟨2, 1⟩⟩,
      .undefinedVariable "bannr".toList ["banner".toList, "ban".toList, "banter".toList]⟩) ∧
    bindings.names.Nodup ∧ "bannr".toList ∉ suggestions "bannr".toList bindings.names ∧
    ∃ b pre post, Relation.ReflTransGen (Calls files) a b ∧ ∀ files' m ms,
      ¬ b.context.Undefined files' (pre ++ (referenceTo "'banner'".toList ++ post))
        (referenceTo "'banner'".toList ++ post) m ms := by
  intro bindings a files
  have hranks : Ranks "bannr".toList bindings.names ["banner".toList, "ban".toList, "banter".toList] := by
    decide +kernel
  have hnearest : suggestions "bannr".toList bindings.names = ["banner".toList, "ban".toList, "banter".toList] :=
    suggestions_eq_of_ranks bindings.nodup_names hranks
  -- What is suggested comes out of a merge sort, which the kernel does not unfold: the rest of the error is evaluated.
  have hshape : (match (a.run files).result with
      | .error (.source ⟨location, .undefinedVariable name _⟩) =>
        decide (location = ⟨"r".toList, ⟨2, 1⟩⟩ ∧ name = "bannr".toList)
      | _ => false) = true := by
    decide +kernel
  have hrun : (a.run files).result = .error (.source ⟨⟨"r".toList, ⟨2, 1⟩⟩,
      .undefinedVariable "bannr".toList ["banner".toList, "ban".toList, "banter".toList]⟩) := by
    split at hshape
    · rename_i hresult
      obtain ⟨rfl, rfl⟩ := of_decide_eq_true hshape
      obtain ⟨-, -, -, -, -, -, -, -, -, rfl⟩ := exists_reached_of_undefined hresult rfl
      rw [← hnearest]
      exact hresult
    · cases hshape
  obtain ⟨hranked, hfails⟩ := suggestions_nearest
  obtain ⟨-, hnodup, -, b, pre, word, post, hb, -, -, -, hfixed⟩ := hfails files a _ _ _ hrun rfl
  obtain ⟨-, -, -, hself, -⟩ := hranked "bannr".toList bindings.names hnodup
  refine ⟨hrun, hnodup, hself, b, pre, post, hb, fun files' m ms => ?_⟩
  have hname : ∀ d ∈ "banner".toList, Quoted.CanSpell d := by simp [Quoted.CanSpell]
  have hspells : b.context.Spells files' "'banner'".toList post "banner".toList :=
    b.context.spells_encode files' (by decide : isQuote '\'' = true) hname post
  exact hfixed "banner".toList (by decide) files' _ hspells m ms

end TextTemplate

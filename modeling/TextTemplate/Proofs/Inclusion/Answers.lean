import TextTemplate.Proofs.Inclusion.Reached
import TextTemplate.Proofs.Inclusion.Separation

/-!
# What an expansion learns from files

An expansion sees of the files what they answer to its questions and nothing else, and of a failure to read only the
kind counts. Files that answer the questions of one expansion alike therefore lead to the same questions and the same
end. The words of a failure are carried along and come out in an error; without them the end is the same, too.

Main results:
* `Context.run_expand_withoutWords`: an expansion, where failures to read come without words.
* `Context.run_expand_alike`: expansions that get like answers.
* `Context.expansion_determined`: what an expansion depends on, and what it never asks for.
-/

namespace TextTemplate

/-! ## Specification -/

/-- A failure to read, with no other words than its kind has. -/
def ReadFailure.withoutWords (g : ReadFailure) : ReadFailure := .ofKind g.kind

/-- An error, with no other words for a failure to read than its kind has. -/
def ExpandError.withoutWords : ExpandError → ExpandError
  | .source e => .source e
  | .unreadable p g => .unreadable p g.withoutWords

/-- The files say as much at a path: they hold the same text, or cannot be read for reasons of the same kind. -/
def Files.Alike (files files' : Files) (p : Path) : Prop :=
  (files' p).mapError ReadFailure.kind = (files p).mapError ReadFailure.kind

/-! ## Failures without words -/

/-- A failure of one text, with no other words for a failure to read than its kind has. -/
def Failure.withoutWords : Failure → Failure
  | .here d => .here d
  | .elsewhere e => .elsewhere e.withoutWords

/-- Files that fail without words. -/
def Files.withoutWords (files : Files) : Files := fun p => (files p).mapError ReadFailure.withoutWords

theorem Files.Alike.withoutWords_eq {files files' : Files} {p : Path} (h : files.Alike files' p) :
    files'.withoutWords p = files.withoutWords p := by
  have hwords : ∀ r : Except ReadFailure Text,
      r.mapError ReadFailure.withoutWords = (r.mapError ReadFailure.kind).mapError ReadFailure.ofKind := by
    rintro (g | t) <;> rfl
  rw [Files.withoutWords, Files.withoutWords, hwords, hwords, h]

theorem Failure.withoutWords_inSource (source whole : Text) (f : Failure) :
    f.withoutWords.inSource source whole = (f.inSource source whole).withoutWords := by
  cases f <;> rfl

namespace Inquiry

variable {ε δ α β : Type} {f : ε → ε} {files files' : Files}

/-- From the second files an inquiry is run as from the first, with its failure changed by `f`. -/
def Transfers (files files' : Files) (f : ε → ε) (x : Inquiry ε α) : Prop :=
  x.run files' = ⟨(x.run files).questions, (x.run files).result.mapError f⟩

theorem Transfers.bind {x : Inquiry ε α} {g : α → Inquiry ε β} (hx : Transfers files files' f x)
    (hg : ∀ a, Transfers files files' f (g a)) : Transfers files files' f (x.bind g) := by
  have hrun : x.run files' = _ := hx
  cases hr : (x.run files).result with
  | ok a =>
    have hr' : (x.run files').result = .ok a := by rw [hrun, hr]; rfl
    have hga : (g a).run files' = _ := hg a
    rw [Transfers, run_bind_ok hr, run_bind_ok hr', hrun, hga]
  | error e =>
    have hr' : (x.run files').result = .error (f e) := by rw [hrun, hr]; rfl
    rw [Transfers, run_bind_error hr, run_bind_error hr', hrun]
    rfl

theorem transfers_compositional (files files' : Files) (f : ε → ε) :
    Compositional fun x _ => Transfers files files' f x where
  pure _ := rfl
  bind hx hg := Transfers.bind hx hg

theorem Transfers.mapError {g : δ → δ} {k : ε → δ} {x : Inquiry ε α} (h : Transfers files files' f x)
    (hk : ∀ e, k (f e) = g (k e)) : Transfers files files' g (x.mapError k) := by
  have hrun : x.run files' = _ := h
  rw [Transfers, run_mapError, run_mapError, hrun]
  cases (x.run files).result with
  | ok a => rfl
  | error e => exact congrArg (fun e => Run.mk _ (Except.error e)) (hk e)

end Inquiry

/-! ## References and directives -/

namespace Context

variable {c : Context} {files : Files} {e : Expander}

theorem lookUp_transfers (c : Context) (files : Files) (u name : Text) :
    (c.lookUp u name).Transfers files files.withoutWords Failure.withoutWords := by
  unfold lookUp
  split <;> rfl

theorem visit_transfers {p : Path}
    (he : ∀ t, (e (c.enter p) t).Transfers files files.withoutWords ExpandError.withoutWords) :
    (c.visit e p).Transfers files files.withoutWords ExpandError.withoutWords := by
  cases hp : files p with
  | ok t =>
    have hp' : files.withoutWords p = .ok t := by rw [Files.withoutWords, hp]; rfl
    have hrun : (e (c.enter p) t).run files.withoutWords = _ := he t
    rw [Inquiry.Transfers, run_visit_ok hp, run_visit_ok hp', hrun]
    cases ((e (c.enter p) t).run files).result <;> rfl
  | error g =>
    have hp' : files.withoutWords p = .error g.withoutWords := by rw [Files.withoutWords, hp]; rfl
    have hkind : g.withoutWords.kind = g.kind := rfl
    rw [Inquiry.Transfers, run_visit_error hp, run_visit_error hp', hkind]
    split_ifs <;> rfl

theorem includeFirst_transfers
    (he : ∀ p t, (e (c.enter p) t).Transfers files files.withoutWords ExpandError.withoutWords)
    (u file : Text) (ps : List Path) :
    (c.includeFirst e u file ps).Transfers files files.withoutWords Failure.withoutWords := by
  induction ps with
  | nil => rfl
  | cons p ps ih =>
    by_cases hp : c.OnStack p
    · rw [includeFirst, if_pos hp]
      rfl
    · rw [includeFirst_cons hp]
      have hvisit : ((c.visit e p).mapError Failure.elsewhere).Transfers files files.withoutWords
          Failure.withoutWords := (visit_transfers (he p)).mapError fun _ => rfl
      refine hvisit.bind ?_
      rintro (_ | t)
      · exact ih
      · rfl

theorem command_transfers
    (he : c.depth < c.maxDepth → ∀ p t,
      (e (c.enter p) t).Transfers files files.withoutWords ExpandError.withoutWords)
    (u : Text) (words : List Text) :
    (c.command (c.within e) u words).Transfers files files.withoutWords Failure.withoutWords := by
  rcases command_cases words with rfl | ⟨cause, -, hrefuse⟩ | ⟨file, hfile, rfl⟩
  · rfl
  · rw [hrefuse]
    rfl
  · rw [command_include c _ u hfile, within]
    split_ifs with hd
    · exact includeFirst_transfers (he hd) u file _
    · rfl

/-! ## Expansions -/

/-- From files that fail without words an expansion is run as from the files themselves, but for the words. -/
theorem run_expand_withoutWords (c : Context) (files : Files) (source s : Text) :
    (c.expand source s).run files.withoutWords =
      ⟨((c.expand source s).run files).questions,
        ((c.expand source s).run files).result.mapError ExpandError.withoutWords⟩ := by
  have hincluded : c.depth < c.maxDepth → ∀ p t,
      (expandIncluded (c.enter p) t).Transfers files files.withoutWords ExpandError.withoutWords :=
    fun hd p t => run_expand_withoutWords (c.enter p) files p.text t
  have hmeaning : c.meaning.Related
      (fun x _ => x.Transfers files files.withoutWords Failure.withoutWords) (fun _ => True) c.meaning :=
    ⟨fun u _ name => lookUp_transfers c files u name, fun u _ words => command_transfers hincluded u words⟩
  have htransfers := evalText_related (Inquiry.transfers_compositional files _ _) hmeaning s
    (fun _ _ => trivial) fun _ _ => rfl
  rw [expand_eq_eval]
  exact htransfers.mapError (Failure.withoutWords_inSource source s)
termination_by c.levelsLeft
decreasing_by exact levelsLeft_enter_lt hd p

/-- Files that answer the questions of an expansion alike lead to the same run, but for the words. -/
theorem run_expand_alike {c : Context} {files files' : Files} {source s : Text}
    (h : ∀ p ∈ ((c.expand source s).run files).reads, files.Alike files' p) :
    ((c.expand source s).run files').questions = ((c.expand source s).run files).questions ∧
    ((c.expand source s).run files').result.mapError ExpandError.withoutWords =
      ((c.expand source s).run files).result.mapError ExpandError.withoutWords := by
  have hwords := run_expand_withoutWords c files source s
  have hwords' := run_expand_withoutWords c files' source s
  have hsame : (c.expand source s).run files'.withoutWords = (c.expand source s).run files.withoutWords := by
    refine Inquiry.run_congr fun p hp => (h p ?_).withoutWords_eq
    rw [hwords] at hp
    exact hp
  rw [hwords, hwords'] at hsame
  exact Inquiry.Run.mk.inj hsame

/-! ## Main theorem -/

/-- An expansion depends only on what the files answer to its questions. Files that answer those alike are asked the
same, from the same stacks, and the expansion ends in the same way: with the same text or with the same error, of which
only the words for a failure to read may be others, and not even those if the answers are the same altogether. No
question is for a path that is on the stack of the expansion that asks it. -/
theorem expansion_determined {c : Context} {files files' : Files} {source s : Text}
    (h : ∀ p ∈ ((c.expand source s).run files).reads, files.Alike files' p) :
    let r := (c.expand source s).run files
    let r' := (c.expand source s).run files'
    r'.questions = r.questions ∧
    r'.result.mapError ExpandError.withoutWords = r.result.mapError ExpandError.withoutWords ∧
    ((∀ p ∈ r.reads, files' p = files p) → r' = r) ∧
    ∀ q ∈ r.questions, ∃ b, Relation.ReflTransGen (Calls files) ⟨c, source, s⟩ b ∧
      q ∈ (b.run files).questions ∧ q.stack = b.context.stack ∧ ¬ b.context.OnStack q.path := by
  obtain ⟨hquestions, hresult⟩ := run_expand_alike h
  refine ⟨hquestions, hresult, fun hsame => Inquiry.run_congr hsame, fun q hq => ?_⟩
  obtain ⟨b, hb, hstack, hasked⟩ := exists_reached_asking files ⟨c, source, s⟩ hq
  have hown : ⟨b.context.stack, q.path⟩ ∈ (b.run files).questions := by
    rw [← hstack]
    exact hasked
  exact ⟨b, hb, hasked, hstack, (fresh_of_question hown).1⟩

/-- An included file looks for one that is missed and then cannot be read. Elsewhere this is said in other words, and
there are files everywhere else, which are never asked for. -/
theorem expansion_determined_words :
    let c : Context := ⟨.empty, [⟨"d".toList⟩], 9, [], ⟨"r".toList⟩⟩
    let files (words : Text) (other : Except ReadFailure Text) : Files := fun p =>
      if p.text = ['a'] then .ok "$(include-file b)".toList
      else if p.text = ['b'] then .error ⟨.notFound, words⟩
      else if p.text = ['d', '/', 'b'] then .error ⟨.isADirectory, words⟩
      else other
    let here := files "here".toList (.error ⟨.other, []⟩)
    let elsewhere := files "elsewhere".toList (.ok "x".toList)
    (∀ p ∈ ((c.expand "r".toList "$(include-file a)".toList).run here).reads, here.Alike elsewhere p) ∧
    ((c.expand "r".toList "$(include-file a)".toList).run elsewhere).result.mapError
      ExpandError.withoutWords = .error (.unreadable ⟨"d/b".toList⟩ (.ofKind .isADirectory)) := by
  intro c files here elsewhere
  have hrun : (c.expand "r".toList "$(include-file a)".toList).run here =
      ⟨[⟨[⟨"r".toList⟩], ⟨"a".toList⟩⟩, ⟨[⟨"r".toList⟩, ⟨"a".toList⟩], ⟨"b".toList⟩⟩,
        ⟨[⟨"r".toList⟩, ⟨"a".toList⟩], ⟨"d/b".toList⟩⟩],
        .error (.unreadable ⟨"d/b".toList⟩ ⟨.isADirectory, "here".toList⟩)⟩ := by
    simp only [c, here, files]
    decide +kernel
  have halike : ∀ p ∈ ((c.expand "r".toList "$(include-file a)".toList).run here).reads,
      here.Alike elsewhere p := by
    rw [hrun]
    simp only [Inquiry.Run.reads, List.map_cons, List.map_nil, List.forall_mem_cons]
    exact ⟨rfl, rfl, rfl, by simp⟩
  refine ⟨halike, ?_⟩
  rw [(expansion_determined halike).2.1, hrun]
  rfl

end Context

end TextTemplate

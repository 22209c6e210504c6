import TextTemplate.CommandLine.Invocation

/-!
# Asking for a command

Every command whose parts can be spelled is asked for by arguments: its name, its options, each in one argument with its
value, and its words behind the mark that ends the options.

Main results:
* `number?_ofNat`, `path?_text`, `pathList?_text`: values that are read as what they spell.
* `tokens_argument`, `tokens_flag`, `tokens_words`: what such arguments give.
* `takeTokens_source`, `takeTokens_json`: what they set.
* `ofArguments_arguments`: a command is what its arguments ask for.
-/

namespace TextTemplate.CommandLine

variable {opts : List Opt} {arity : Nat} {settings settings' : Settings} {rest : List Text}

/-! ## Specification -/

/-- A path can be given in an argument: it is text, and not empty. -/
structure IsWord (path : Path) : Prop where
  /-- It is text. -/
  isText : path.IsText
  /-- It is not empty. -/
  ne_nil : path.text ≠ []

/-- The parts of a source are values of options and words. -/
structure Source.IsSpellable (s : Source) : Prop where
  /-- The path of the bindings is a word. -/
  bindings : IsWord s.bindings
  /-- The path of the template is a word. -/
  template : IsWord s.template
  /-- Each search directory is a word without the mark that stands between two. -/
  searchDirs : ∀ d ∈ s.searchDirs, IsWord d ∧ ':' ∉ d.text
  /-- The depth has at most 64 bits. -/
  maxDepth : s.maxDepth < UInt64.size

/-- The parts of a command are values of options and words. -/
def Command.IsSpellable : Command → Prop
  | .expand source output => source.IsSpellable ∧ ∀ path ∈ output, IsWord path
  | .check source _ => source.IsSpellable
  | .vars bindings _ => IsWord bindings

/-- An option and its value in one argument. -/
def Opt.argument (o : Opt) (value : Text) : Text := '-' :: '-' :: (o.long ++ '=' :: value)

/-- An option without a value. -/
def Opt.flag (o : Opt) : Text := '-' :: '-' :: o.long

/-- The option for JSON, if JSON is wanted. -/
def jsonArguments (json : Bool) : List Text := if json then [Opt.json.flag] else []

/-- The mark that ends the options, and words. -/
def words (ps : List Path) : List Text := ['-', '-'] :: ps.map Path.text

/-- Arguments for a source: its options and its words. -/
def Source.arguments (s : Source) : List Text :=
  Opt.maxDepth.argument (.ofNat s.maxDepth) ::
    ((s.searchDirs.map fun d => Opt.includeDir.argument d.text) ++ words [s.bindings, s.template])

/-- Arguments that ask for a command. -/
def Command.arguments : Command → List Text
  | .expand source output =>
    "expand".toList :: ((output.toList.map fun path => Opt.output.argument path.text) ++ source.arguments)
  | .check source json => "check".toList :: (jsonArguments json ++ source.arguments)
  | .vars bindings json => "vars".toList :: (jsonArguments json ++ words [bindings])

/-! ## Values -/

theorem number?_ofNat {n : Nat} (h : n < UInt64.size) : number? (.ofNat n) = some n := by
  have hdigits : ∀ c ∈ Text.ofNat n, c.isDigit = true := fun c =>
    Nat.isDigit_of_mem_toDigits (by decide) (by decide)
  have hne : Text.ofNat n ≠ [] := Nat.toDigits_ne_nil
  have hvalue : (Text.ofNat n).foldl (fun n d => n * 10 + (d.toNat - '0'.toNat)) 0 = n := by
    have hfold := Nat.ofDigitChars_ten_toDigits (n := n)
    simp only [Nat.ofDigitChars_eq_foldl, Nat.mul_comm 10] at hfold
    exact hfold
  unfold number?
  split
  · rename_i ds hplus
    have : ('+').isDigit = true := hdigits '+' (by rw [hplus]; exact List.mem_cons_self)
    cases this
  · dsimp only
    rw [hvalue, if_pos ⟨hne, List.all_eq_true.2 hdigits, h⟩]

theorem path?_text {p : Path} (h : IsWord p) : path? p.text = some p := by
  rw [path?, if_neg h.ne_nil]
  exact congrArg some h.isText.symm

theorem pathList?_text {p : Path} (h : IsWord p) (hcolon : ':' ∉ p.text) : pathList? p.text = some [p] := by
  rw [pathList?, List.splitOn_eq_singleton hcolon]
  simp [path?_text h]

/-! ## Tokens -/

theorem not_mem_long (o : Opt) : '=' ∉ o.long := by cases o <;> decide

theorem tokens_argument {o : Opt} (ho : opts.find? (·.long = o.long) = some o) (hvalue : o.takesValue = true)
    (value : Text) : tokens opts none (o.argument value :: rest) = .option o (some value) :: tokens opts none rest := by
  have hname : (o.long ++ '=' :: value).takeWhile (· != '=') = o.long := by
    rw [List.takeWhile_append_of_pos fun c hc => bne_iff_ne.2 (ne_of_mem_of_not_mem hc (not_mem_long o))]
    simp
  have hlong : longTokens opts (o.long ++ '=' :: value) = ([.option o (some value)], none) := by
    have hdrop : (o.long ++ '=' :: value).drop (o.long.length + 1) = value := by simp
    simp only [longTokens, hname, ho, hvalue, hdrop]
    simp
  simp [tokens, Opt.argument, looksLikeOption, hlong]

theorem tokens_flag {o : Opt} (ho : opts.find? (·.long = o.long) = some o) (hvalue : o.takesValue = false) :
    tokens opts none (o.flag :: rest) = .option o none :: tokens opts none rest := by
  have hname : o.long.takeWhile (· != '=') = o.long := by cases o <;> decide
  have hlong : longTokens opts o.long = ([.option o none], none) := by
    simp only [longTokens, hname, ho, hvalue]
    simp [not_mem_long]
  have hne : o.long ≠ [] := by cases o <;> decide
  simp [tokens, Opt.flag, looksLikeOption, hlong, hne]

theorem tokens_words (ps : List Path) : tokens opts none (words ps) = ps.map fun p => .literal p.text := by
  simp [tokens, words]

/-! ## Settings -/

theorem takeTokens_words (ps : List Path) (hps : ∀ p ∈ ps, IsWord p)
    (harity : settings.words.length + ps.length ≤ arity) :
    takeTokens arity settings (tokens opts none (words ps)) =
      .ok { settings with words := settings.words ++ ps } := by
  rw [tokens_words]
  induction ps generalizing settings with
  | nil => simp [takeTokens]
  | cons p ps ih =>
    rw [List.length_cons] at harity
    rw [List.forall_mem_cons] at hps
    have hword : settings.addWord arity p.text = .ok { settings with words := settings.words ++ [p] } := by
      simp [Settings.addWord, path?_text hps.1, show ¬ arity ≤ settings.words.length by omega]
    rw [List.map_cons, takeTokens]
    simp only [hword]
    rw [ih hps.2 (by simp; omega)]
    simp

theorem takeTokens_argument {o : Opt} {value : Text} (ho : opts.find? (·.long = o.long) = some o)
    (hvalue : o.takesValue = true) (hadd : settings.add o value = .ok settings') :
    takeTokens arity settings (tokens opts none (o.argument value :: rest)) =
      takeTokens arity settings' (tokens opts none rest) := by
  rw [tokens_argument ho hvalue, takeTokens]
  simp only [Option.getD_some, hadd]

theorem takeTokens_flag {o : Opt} (ho : opts.find? (·.long = o.long) = some o)
    (hvalue : o.takesValue = false) (hadd : settings.add o [] = .ok settings') :
    takeTokens arity settings (tokens opts none (o.flag :: rest)) =
      takeTokens arity settings' (tokens opts none rest) := by
  rw [tokens_flag ho hvalue, takeTokens]
  simp only [Option.getD_none, hadd]

theorem takeTokens_json (ho : opts.find? (·.long = Opt.json.long) = some .json) (json : Bool) :
    takeTokens arity {} (tokens opts none (jsonArguments json ++ rest)) =
      takeTokens arity { json := json } (tokens opts none rest) := by
  cases json with
  | false => rfl
  | true => exact takeTokens_flag ho rfl rfl

/-- Search directories add up. -/
theorem takeTokens_searchDirs (ho : opts.find? (·.long = Opt.includeDir.long) = some .includeDir) {ds : List Path}
    (hds : ∀ d ∈ ds, IsWord d ∧ ':' ∉ d.text) (settings : Settings) :
    ∃ dirs : Option (List Path), dirs.getD [] = settings.searchDirs.getD [] ++ ds ∧
      takeTokens arity settings (tokens opts none ((ds.map fun d => Opt.includeDir.argument d.text) ++ rest)) =
        takeTokens arity { settings with searchDirs := dirs } (tokens opts none rest) := by
  induction ds generalizing settings with
  | nil => exact ⟨settings.searchDirs, by simp, rfl⟩
  | cons d ds ih =>
    rw [List.forall_mem_cons] at hds
    obtain ⟨dirs, hdirs, htake⟩ :=
      ih hds.2 { settings with searchDirs := some (settings.searchDirs.getD [] ++ [d]) }
    have hadd : settings.add .includeDir d.text =
        .ok { settings with searchDirs := some (settings.searchDirs.getD [] ++ [d]) } := by
      simp only [Settings.add, pathList?_text hds.1.1 hds.1.2]
    refine ⟨dirs, by simpa using hdirs, ?_⟩
    rw [List.map_cons, List.cons_append, takeTokens_argument ho rfl hadd, htake]

/-- The arguments of a source set its search directories, its depth and its paths. -/
theorem takeTokens_source {source : Source} (h : source.IsSpellable)
    (hdir : opts.find? (·.long = Opt.includeDir.long) = some .includeDir)
    (hdepth : opts.find? (·.long = Opt.maxDepth.long) = some .maxDepth) (settings : Settings)
    (hfresh : settings.searchDirs = none ∧ settings.maxDepth = none ∧ settings.words = []) :
    ∃ dirs : Option (List Path), dirs.getD [] = source.searchDirs ∧
      takeTokens 2 settings (tokens opts none source.arguments) =
        .ok { settings with
          searchDirs := dirs, maxDepth := some source.maxDepth, words := [source.bindings, source.template] } := by
  obtain ⟨hempty, hnone, hwords⟩ := hfresh
  have hadd : settings.add .maxDepth (.ofNat source.maxDepth) =
      .ok { settings with maxDepth := some source.maxDepth } := by
    simp only [Settings.add, hnone, number?_ofNat h.maxDepth]
  obtain ⟨dirs, hdirs, htake⟩ :=
    takeTokens_searchDirs hdir h.searchDirs { settings with maxDepth := some source.maxDepth }
  refine ⟨dirs, by simpa [hempty] using hdirs, ?_⟩
  rw [Source.arguments, takeTokens_argument hdepth rfl hadd, htake, takeTokens_words]
  · simp [hwords]
  · simp [h.bindings, h.template]
  · simp [hwords]

/-! ## Main theorem -/

theorem searchDirs_none (settings : Settings) : searchDirs settings none = .ok (settings.searchDirs.getD []) := by
  cases h : settings.searchDirs <;> simp only [searchDirs, h, Option.getD_none, Option.getD_some]

/-- A command is what its arguments ask for. -/
theorem ofArguments_arguments (command : Command) (h : command.IsSpellable) :
    Invocation.ofArguments command.arguments none = .ok (.command .auto command) := by
  cases command with
  | expand source output =>
    have hread : Invocation.ofArguments (Command.expand source output).arguments none =
      readCommand {} .expand none
        ((output.toList.map fun path => Opt.output.argument path.text) ++ source.arguments) := rfl
    obtain ⟨hsource, houtput⟩ := h
    have hdir : CommandName.expand.options.find? (·.long = Opt.includeDir.long) = some .includeDir := rfl
    obtain ⟨dirs, hdirs, htake⟩ := takeTokens_source hsource hdir rfl { output := output } ⟨rfl, rfl, rfl⟩
    have hfirst : takeTokens 2 {} (tokens CommandName.expand.options none
          ((output.toList.map fun path => Opt.output.argument path.text) ++ source.arguments)) =
        takeTokens 2 { output := output } (tokens CommandName.expand.options none source.arguments) := by
      cases output with
      | none => rfl
      | some path =>
        refine takeTokens_argument rfl rfl ?_
        simp [Settings.add, path?_text (houtput path rfl)]
    rw [hread, readCommand, CommandName.arity, hfirst, htake]
    simp [CommandName.command, searchDirs_none, hdirs, Except.map]
  | check source json =>
    have hread : Invocation.ofArguments (Command.check source json).arguments none =
      readCommand {} .check none (jsonArguments json ++ source.arguments) := rfl
    have hdir : CommandName.check.options.find? (·.long = Opt.includeDir.long) = some .includeDir := rfl
    obtain ⟨dirs, hdirs, htake⟩ := takeTokens_source h hdir rfl { json := json } ⟨rfl, rfl, rfl⟩
    rw [hread, readCommand, CommandName.arity, takeTokens_json rfl, htake]
    simp [CommandName.command, searchDirs_none, hdirs, Except.map]
  | vars bindings json =>
    have hread : Invocation.ofArguments (Command.vars bindings json).arguments none =
      readCommand {} .vars none (jsonArguments json ++ words [bindings]) := rfl
    have htake : takeTokens 1 { json := json } (tokens CommandName.vars.options none (words [bindings])) =
        .ok { json := json, words := [bindings] } :=
      takeTokens_words [bindings] (List.forall_mem_singleton.2 h) (Nat.le_refl 1)
    rw [hread, readCommand, CommandName.arity, takeTokens_json rfl, htake]
    rfl

end TextTemplate.CommandLine

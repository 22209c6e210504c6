import TextTemplate.CommandLine.Program
import TextTemplate.Proofs.CommandLine.Arguments
import TextTemplate.Proofs.Files.Tree
import TextTemplate.Proofs.Json.Values
import TextTemplate.Proofs.Session

/-!
# What the commands have in common

The commands that expand a template load the bindings and expand the template with them, and all of them tell by their
exit code how that ends: the one that prints the expansion, the one that only checks it, in words or as JSON, and the one
that writes it to a file. Nothing is written unless all of the expansion is there, and then that file alone.

Main results:
* `Source.ends_iff`: how loading and expanding ends.
* `Leaves.expand_ok`, `Leaves.expand_error`, `Leaves.check`, `Leaves.check_json`, `Leaves.vars_ok`: what a command
  leaves behind.
* `reports_checkJson`: what the JSON of a check says.
* `commands_agree`: the commands compared.
-/

namespace TextTemplate

/-- The member of an object under a key. -/
def Json.member? (key : Text) : Json → Option Json
  | .object members => members.lookup key
  | _ => none

/-- The keys of an object. -/
def Json.keys : Json → List Text
  | .object members => members.map Prod.fst
  | _ => []

/-- The words for a failed expansion, without the location of an error in a source. -/
def ExpandError.words : ExpandError → Text
  | .source error => error.cause.message
  | .unreadable path failure => (ExpandError.unreadable path failure).display

namespace CommandLine

/-! ## Specification -/

/-- Loading the bindings of a source and expanding its template ends that way: the bindings cannot be read, they are
refused, the template cannot be read, or it is expanded with them. -/
inductive Source.Ends (s : Source) (files : Files) : Except ExpandError Text → Prop
  | noBindings {g : ReadFailure} : files s.bindings = .error g → s.Ends files (.error (.unreadable s.bindings g))
  | refused {text : Text} {e : SourceError} : files s.bindings = .ok text →
      Bindings.parse s.bindings.text text = .error e → s.Ends files (.error (.source e))
  | noTemplate {text : Text} {b : Bindings} {g : ReadFailure} : files s.bindings = .ok text →
      Bindings.parse s.bindings.text text = .ok b → files s.template = .error g →
      s.Ends files (.error (.unreadable s.template g))
  | expanded {text template : Text} {b : Bindings} {r : Except ExpandError Text} : files s.bindings = .ok text →
      Bindings.parse s.bindings.text text = .ok b → files s.template = .ok template →
      ((Context.expand ⟨b, s.searchDirs, s.maxDepth, [], s.template⟩ s.template.text template).run files).result = r →
      s.Ends files r

/-- A command is carried out in a tree, in colour or not, and leaves that behind. -/
def Leaves (tree : FileTree) (command : Command) (left : Aftermath) : Prop :=
  ∃ colored outcome, ((command.run colored).run tree.read).result = .ok outcome ∧ outcome.perform tree = left

/-- The exit codes for the ends of an expansion. -/
inductive CodeFor : Except ExpandError Text → Nat → Prop
  | expanded (text : Text) : CodeFor (.ok text) 0
  | refused (error : SourceError) : CodeFor (.error (.source error)) 65
  | unreadable (path : Path) (failure : ReadFailure) : CodeFor (.error (.unreadable path failure)) 74

/-- What JSON says of an expansion with an exit code. -/
structure Reports (result : Except ExpandError Text) (code : Nat) (json : Json) : Prop where
  /-- It has no key twice. -/
  keys : json.keys.Nodup
  /-- It says whether the expansion succeeded. -/
  ok : json.member? "ok".toList = some (.bool (code = 0))
  /-- It tells no error of an expansion that succeeded. -/
  success : ∀ text, result = .ok text → json.member? "error".toList = none
  /-- It tells the words for an expansion that failed, and the location of an error in a source. -/
  error : ∀ e, result = .error e → ∃ info, json.member? "error".toList = some info ∧ info.keys.Nodup ∧
    info.member? "message".toList = some (.string e.words) ∧
    (∀ key ∈ ["source".toList, "line".toList, "column".toList], (info.member? key).isSome ↔ code = 65) ∧
    ∀ inner, e = .source inner →
      info.member? "source".toList = some (.string inner.location.source) ∧
      info.member? "line".toList = some (.number inner.location.position.line) ∧
      info.member? "column".toList = some (.number inner.location.position.column)

/-! ## Exit codes and JSON -/

theorem codeFor_checkCode (result : Except ExpandError Text) : CodeFor result (checkCode result) := by
  cases result with
  | ok text => exact .expanded text
  | error e =>
    cases e with
    | source error => exact .refused error
    | unreadable path failure => exact .unreadable path failure

theorem nodup_keys_errorJson (e : ExpandError) : (errorJson e).keys.Nodup := by
  cases e with
  | source inner =>
    simp only [errorJson, Json.keys, List.map_append]
    split
    · exact (by decide : ["message".toList, "source".toList, "line".toList, "column".toList].Nodup)
    · exact (by decide :
        ["message".toList, "source".toList, "line".toList, "column".toList, "suggestions".toList].Nodup)
  | unreadable path failure => exact (by decide : ["message".toList].Nodup)

theorem nodup_keys_checkJson (result : Except ExpandError Text) : (checkJson result).keys.Nodup := by
  cases result with
  | ok text => exact (by decide : ["ok".toList].Nodup)
  | error e => exact (by decide : ["ok".toList, "error".toList].Nodup)

/-- The JSON of a check tells its end. -/
theorem reports_checkJson (result : Except ExpandError Text) :
    Reports result (checkCode result) (checkJson result) := by
  refine ⟨nodup_keys_checkJson result, ?_, ?_, ?_⟩
  · cases result with
    | ok text => rfl
    | error e => cases e <;> rfl
  · rintro text rfl
    rfl
  · rintro e rfl
    refine ⟨errorJson e, rfl, nodup_keys_errorJson e, ?_⟩
    rw [List.forall_mem_cons, List.forall_mem_cons, List.forall_mem_singleton]
    cases e with
    | source inner =>
      refine ⟨rfl, ⟨iff_of_true rfl rfl, iff_of_true rfl rfl, iff_of_true rfl rfl⟩, ?_⟩
      rintro _ ⟨⟩
      exact ⟨rfl, rfl, rfl⟩
    | unreadable path failure =>
      exact ⟨rfl, ⟨iff_of_false nofun nofun, iff_of_false nofun nofun, iff_of_false nofun nofun⟩, nofun⟩

/-! ## Loading and expanding -/

namespace Source

variable {s : Source} {files : Files} {r : Except ExpandError Text}

/-- The bindings are loaded, and the template is expanded with them, in the directories and to the depth of the
source. -/
theorem Ends.run_expand (h : s.Ends files r) : (s.expand.run files).result = r := by
  rw [expand]
  cases h with
  | noBindings hbindings =>
    have hload := congrArg Inquiry.Run.result (Session.run_loadFile_of_error hbindings)
    rw [Inquiry.run_bind_error hload]
  | refused hbindings hparse =>
    have hload := congrArg Inquiry.Run.result (Session.run_loadFile_of_ok hbindings)
    rw [hparse] at hload
    rw [Inquiry.run_bind_error hload]
  | noTemplate hbindings hparse htemplate =>
    have hload := congrArg Inquiry.Run.result (Session.run_loadFile_of_ok hbindings)
    rw [hparse] at hload
    rw [Inquiry.run_bind_ok hload, Session.run_expandFile_of_error htemplate]
  | expanded hbindings hparse htemplate hresult =>
    have hload := congrArg Inquiry.Run.result (Session.run_loadFile_of_ok hbindings)
    rw [hparse] at hload
    rw [Inquiry.run_bind_ok hload, Session.run_expandFile_of_ok htemplate]
    exact hresult

/-- It ends in one of these ways. -/
theorem exists_ends (s : Source) (files : Files) : ∃ r, s.Ends files r := by
  cases hbindings : files s.bindings with
  | error g => exact ⟨_, .noBindings hbindings⟩
  | ok text =>
    cases hparse : Bindings.parse s.bindings.text text with
    | error e => exact ⟨_, .refused hbindings hparse⟩
    | ok b =>
      cases htemplate : files s.template with
      | error g => exact ⟨_, .noTemplate hbindings hparse htemplate⟩
      | ok template => exact ⟨_, .expanded hbindings hparse htemplate rfl⟩

theorem ends_iff : s.Ends files r ↔ r = (s.expand.run files).result := by
  constructor
  · exact fun h => h.run_expand.symm
  · rintro rfl
    obtain ⟨r, hr⟩ := s.exists_ends files
    rw [hr.run_expand]
    exact hr

/-- A template that is expanded has bindings that can be loaded. -/
theorem Ends.exists_loadFile {text : Text} (h : s.Ends files (.ok text)) :
    ∃ b, ((Session.loadFile s.bindings).run files).result = .ok b := by
  cases h with
  | expanded hbindings hparse _ _ =>
    rw [Session.run_loadFile_of_ok hbindings, hparse]
    exact ⟨_, rfl⟩

end Source

/-! ## One command -/

/-- Every command leaves something behind. -/
theorem exists_leaves (tree : FileTree) (command : Command) : ∃ left, Leaves tree command left := by
  cases hrun : ((command.run false).run tree.read).result with
  | ok outcome => exact ⟨_, false, outcome, hrun, rfl⟩
  | error e => exact e.elim

/-- What the program leaves behind is what the command leaves that it is asked for. -/
theorem leaves_runIn {environment : Environment} {arguments : List Text} {color : ColorWhen} {command : Command}
    (h : Invocation.ofArguments arguments environment.includePath = .ok (.command color command)) (tree : FileTree) :
    Leaves tree command (runIn tree environment arguments) := by
  have hprogram : program environment arguments = command.run (color.holds environment.terminal) := by
    rw [program, h]
  cases hrun : ((command.run (color.holds environment.terminal)).run tree.read).result with
  | ok outcome =>
    refine ⟨_, outcome, hrun, ?_⟩
    simp only [runIn, hprogram, hrun]
  | error e => exact e.elim

namespace Leaves

variable {tree : FileTree} {source : Source} {left : Aftermath}

/-- What a command leaves behind is what its outcome does to the tree. -/
theorem exists_perform {command : Command} (h : Leaves tree command left) :
    ∃ colored, ∀ outcome, ((command.run colored).run tree.read).result = .ok outcome →
      left = outcome.perform tree := by
  obtain ⟨colored, outcome, hrun, rfl⟩ := h
  refine ⟨colored, fun outcome' hrun' => ?_⟩
  obtain rfl := Except.ok.inj (hrun.symm.trans hrun')
  rfl

/-- An expansion that fails leaves the tree as it is, wherever it was to go. -/
theorem expand_error {output : Option Path} {e : ExpandError} (h : Leaves tree (.expand source output) left)
    (hresult : (source.expand.run tree.read).result = .error e) : left = ⟨exitCode e, [], tree⟩ := by
  obtain ⟨colored, h⟩ := h.exists_perform
  refine h (.failed e) ?_
  rw [Command.run, Inquiry.run_attempt_bind, hresult, Inquiry.run_pure]

/-- An expansion goes to the output, or else to a file. -/
theorem expand_ok {output : Option Path} {text : Text} (h : Leaves tree (.expand source output) left)
    (hresult : (source.expand.run tree.read).result = .ok text) :
    left = match output with
      | none => ⟨exitOk, text, tree⟩
      | some path => (Outcome.write path text).perform tree := by
  obtain ⟨colored, h⟩ := h.exists_perform
  cases output with
  | none =>
    refine h (.exit exitOk text []) ?_
    rw [Command.run, Inquiry.run_attempt_bind, hresult, Inquiry.run_pure]
  | some path =>
    refine h (.write path text) ?_
    rw [Command.run, Inquiry.run_attempt_bind, hresult, Inquiry.run_pure]

/-- A check in words ends as the expansion does. -/
theorem check (h : Leaves tree (.check source false) left) :
    left.code = checkCode (source.expand.run tree.read).result ∧ left.tree = tree := by
  obtain ⟨colored, h⟩ := h.exists_perform
  cases hresult : (source.expand.run tree.read).result with
  | ok text =>
    rw [h (.exit exitOk (okWord colored ++ ' ' :: source.template.text ++ ['\n']) [])]
    · exact ⟨rfl, rfl⟩
    · rw [Command.run, Inquiry.run_attempt_bind, hresult]
      rfl
  | error e =>
    rw [h (.failed e)]
    · exact ⟨rfl, rfl⟩
    · rw [Command.run, Inquiry.run_attempt_bind, hresult]
      rfl

/-- A check in JSON prints the end of the expansion and ends as it does. -/
theorem check_json (h : Leaves tree (.check source true) left) :
    left = ⟨checkCode (source.expand.run tree.read).result,
      (checkJson (source.expand.run tree.read).result).pretty ++ ['\n'], tree⟩ := by
  obtain ⟨colored, h⟩ := h.exists_perform
  refine h (.exit _ _ []) ?_
  rw [Command.run, Inquiry.run_attempt_bind, if_pos rfl, Inquiry.run_pure]

/-- Bindings that can be loaded are listed. -/
theorem vars_ok {bindings : Path} {json : Bool} {b : Bindings} (h : Leaves tree (.vars bindings json) left)
    (hresult : ((Session.loadFile bindings).run tree.read).result = .ok b) :
    left.code = exitOk ∧ left.tree = tree := by
  obtain ⟨colored, h⟩ := h.exists_perform
  rw [h (.exit exitOk ((if json then b.toJson.pretty else b.table.render) ++ ['\n']) [])]
  · exact ⟨rfl, rfl⟩
  · rw [Command.run, Inquiry.run_attempt_bind, hresult, Inquiry.run_pure]

end Leaves

/-- Where there is room for a file, a text is written to it and nothing else is changed, and else nothing is. -/
theorem perform_write (tree : FileTree) (path : Path) (text : Text) :
    let left := (Outcome.write path text).perform tree
    left.output = [] ∧
      ((∃ place, tree.HasRoom path place) → left.code = exitOk ∧ tree.Writes path text left.tree) ∧
      ((¬ ∃ place, tree.HasRoom path place) → left.code = exitCannotCreate ∧ left.tree = tree) := by
  intro left
  cases hwrite : tree.write? path text with
  | ok tree' =>
    have hleft : left = ⟨exitOk, [], tree'⟩ := by simp only [left, Outcome.perform, hwrite]
    obtain ⟨place, hroom, -⟩ := FileTree.write?_eq_ok_iff.1 hwrite
    rw [hleft]
    exact ⟨rfl, fun _ => ⟨rfl, FileTree.writes_of_write? hwrite⟩, fun hnone => absurd ⟨place, hroom⟩ hnone⟩
  | error trouble =>
    have hleft : left = ⟨exitCannotCreate, [], tree⟩ := by simp only [left, Outcome.perform, hwrite]
    rw [hleft]
    refine ⟨rfl, ?_, fun _ => ⟨rfl, rfl⟩⟩
    rintro ⟨place, hroom⟩
    rw [FileTree.write?_eq_ok_iff.2 ⟨place, hroom, rfl⟩] at hwrite
    cases hwrite

/-! ## Main theorem -/

/-- In any tree, with any bindings, template, search directories and depth, the commands agree, and the program leaves
behind what the command leaves that its arguments ask for. Loading the bindings and expanding the template with them ends
in one way, and printing the expansion and checking it, in words or JSON, exit with the code for that and leave the tree
as it is. The expansion is printed in full, and nothing of one that fails; what is printed as JSON is the text of one
value, which reports how it ended. If the code is 0, the bindings are listed with the same code. Writing the expansion to
a file prints nothing. If it fails, the code is the same and the tree stays as it is; and if not, the file holds all of it
and nothing else is changed where there is room for a file, and else the code is 73 and the tree stays as it is. -/
theorem commands_agree (tree : FileTree) (source : Source) :
    (∀ command : Command, ∃ left, Leaves tree command left) ∧
    (∀ environment arguments color command,
      Invocation.ofArguments arguments environment.includePath = .ok (.command color command) →
      Leaves tree command (runIn tree environment arguments)) ∧
    ∃ result code, (∀ r, source.Ends tree.read r ↔ r = result) ∧ CodeFor result code ∧
      (∀ left, Leaves tree (.expand source none) left → left.code = code ∧ left.tree = tree ∧
        left.output = match result with | .ok text => text | .error _ => []) ∧
      (∀ json left, Leaves tree (.check source json) left → left.code = code ∧ left.tree = tree ∧
        (json = true → ∃ value, Reports result code value ∧ ∀ v, Json.PaddedText v left.output ↔ v = value)) ∧
      (∀ json left, Leaves tree (.vars source.bindings json) left → code = 0 →
        left.code = 0 ∧ left.tree = tree) ∧
      ∀ path left, Leaves tree (.expand source (some path)) left →
        left.output = [] ∧
        (∀ e, result = .error e → left.code = code ∧ left.tree = tree) ∧
        (∀ text, result = .ok text →
          ((∃ place, tree.HasRoom path place) → left.code = 0 ∧ tree.Writes path text left.tree) ∧
          ((¬ ∃ place, tree.HasRoom path place) → left.code = 73 ∧ left.tree = tree)) := by
  refine ⟨exists_leaves tree, fun _ _ _ _ h => leaves_runIn h tree, ?_⟩
  obtain ⟨result, hresult⟩ : ∃ result, result = (source.expand.run tree.read).result := ⟨_, rfl⟩
  have hends : ∀ r, source.Ends tree.read r ↔ r = result := fun r => by rw [Source.ends_iff, hresult]
  refine ⟨result, checkCode result, hends, codeFor_checkCode result, fun left h => ?_, fun json left h => ?_,
    fun json left h hcode => ?_, fun path left h => ?_⟩
  · cases result with
    | ok text => rw [h.expand_ok hresult.symm]; exact ⟨rfl, rfl, rfl⟩
    | error e => rw [h.expand_error hresult.symm]; exact ⟨rfl, rfl, rfl⟩
  · cases json with
    | false => exact ⟨hresult ▸ h.check.1, h.check.2, nofun⟩
    | true =>
      rw [h.check_json, ← hresult]
      exact ⟨rfl, rfl, fun _ => ⟨checkJson result, reports_checkJson result, fun v => Json.paddedText_pretty_iff⟩⟩
  · cases result with
    | ok text =>
      obtain ⟨b, hb⟩ := ((hends _).2 rfl).exists_loadFile
      exact h.vars_ok hb
    | error e => cases e <;> cases hcode
  · cases result with
    | ok text =>
      rw [h.expand_ok hresult.symm]
      obtain ⟨houtput, hwritten⟩ := perform_write tree path text
      refine ⟨houtput, nofun, ?_⟩
      rintro _ ⟨⟩
      exact hwritten
    | error e =>
      rw [h.expand_error hresult.symm]
      refine ⟨rfl, ?_, nofun⟩
      rintro _ ⟨⟩
      exact ⟨rfl, rfl⟩

end CommandLine

end TextTemplate

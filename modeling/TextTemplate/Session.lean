import TextTemplate.Bindings.Reader
import TextTemplate.Inclusion

/-!
# Sessions

A session holds bindings and the settings for includes, and answers requests: to load bindings, from a file
or from a text, and to expand a template, from a file or from a text. Loading replaces the bindings if it
succeeds and changes nothing if it fails; expanding never changes anything.
-/

namespace TextTemplate

/-- Ask for the file at a path on behalf of no other; without it the whole expansion fails. -/
def readFile (path : Path) : Inquiry ExpandError Text :=
  .ask ⟨[], path⟩ fun
    | .ok text => .pure text
    | .error failure => .fail (.unreadable path failure)

/-- Bindings and the settings for includes. -/
structure Session where
  /-- What references are looked up in. -/
  bindings : Bindings := .empty
  /-- The directories searched for includes, in order. -/
  searchDirs : List Path := []
  /-- How many files may be open at once. -/
  maxDepth : Nat := defaultMaxDepth
  deriving DecidableEq

namespace Session

/-- The context of a template at a path. -/
def context (s : Session) (root : Path) : Context :=
  { Context.ofRoot s.bindings root with searchDirs := s.searchDirs, maxDepth := s.maxDepth }

/-- The bindings that the text of the named source defines. -/
def loadText (source text : Text) : Inquiry ExpandError Bindings :=
  match Bindings.parse source text with
  | .ok bindings => .pure bindings
  | .error error => .fail (.source error)

/-- The bindings that the file at a path defines. -/
def loadFile (path : Path) : Inquiry ExpandError Bindings :=
  (readFile path).bind (loadText path.text)

/-- Expand a text as the template at the path that its source's name spells. -/
def expandText (s : Session) (source text : Text) : Inquiry ExpandError Text :=
  (s.context ⟨source⟩).expand source text

/-- Expand the template in the file at a path, whose source is named by what is shown of the path. -/
def expandFile (s : Session) (path : Path) : Inquiry ExpandError Text :=
  (readFile path).bind ((s.context path).expand path.text)

/-! ## Requests -/

/-- What a session can be asked. -/
inductive Request where
  /-- Load bindings from a file. -/
  | loadFile (path : Path)
  /-- Load bindings from a text. -/
  | loadText (source text : Text)
  /-- Expand the template in a file. -/
  | expandFile (path : Path)
  /-- Expand a text. -/
  | expandText (source text : Text)
  deriving DecidableEq, Repr

/-- What a session answers. -/
inductive Reply where
  /-- So many names are bound now. -/
  | loaded (count : Nat)
  /-- The expansion. -/
  | expanded (text : Text)
  deriving DecidableEq, Repr

/-- Take over bindings. -/
def adopt (s : Session) (bindings : Bindings) : Session × Reply :=
  ({ s with bindings := bindings }, .loaded bindings.size)

/-- Answer a request; a session that answers well may have new bindings. -/
def answer (s : Session) : Request → Inquiry ExpandError (Session × Reply)
  | .loadFile path => s.adopt <$> Session.loadFile path
  | .loadText source text => s.adopt <$> Session.loadText source text
  | .expandFile path => (fun t => (s, .expanded t)) <$> s.expandFile path
  | .expandText source text => (fun t => (s, .expanded t)) <$> s.expandText source text

/-- Answer a request from files: the session after it, the questions, and the reply or the error. -/
def step (s : Session) (files : Files) (request : Request) :
    Session × Inquiry.Run ExpandError Reply :=
  let r := (s.answer request).run files
  match r.result with
  | .ok (s', reply) => (s', ⟨r.questions, .ok reply⟩)
  | .error e => (s, ⟨r.questions, .error e⟩)

end Session

end TextTemplate

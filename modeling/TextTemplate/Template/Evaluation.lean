import TextTemplate.Inquiry
import TextTemplate.Template.Reader

/-!
# Evaluating templates

What a template produces, given what its references and its directives stand for (`Semantics`).
Evaluation goes through the parts in reading order and stops at the first failure; what a reference or an
include yields is put into the output as it is and never read as a template again. Of a text that is no
template everything complete is evaluated before its fault counts.
-/

namespace TextTemplate

/-- Why the evaluation of one text fails. -/
inductive Failure where
  /-- A defect of the text itself. -/
  | here (defect : Defect)
  /-- An error from elsewhere: a file that it includes, or one that cannot be read. -/
  | elsewhere (error : ExpandError)
  deriving DecidableEq, Repr

/-- A failure as an error of the whole expansion, where the source of that name holds the text `whole`. -/
def Failure.inSource (source whole : Text) : Failure → ExpandError
  | .here defect => .source (defect.inSource source whole)
  | .elsewhere error => error

/-- What references and directives stand for; each is told the text from its dollar sign on. -/
structure Semantics where
  /-- What a reference to a name stands for. -/
  reference : (start : Text) → (name : Text) → Inquiry Failure Text
  /-- What a directive with those words stands for. -/
  directive : (start : Text) → (words : List Text) → Inquiry Failure Text

/-! ## Parts -/

mutual

/-- What an expansion produces. -/
def Expansion.eval (m : Semantics) : Expansion → Inquiry Failure Text
  | .dollar => pure ['$']
  | .join => pure []
  | .comment => pure []
  | .reference start name => do m.reference start (← evalParts m name)
  | .directive start words => do m.directive start (← evalWords m words)

/-- What a part produces. -/
def Part.eval (m : Semantics) : Part → Inquiry Failure Text
  | .text t => pure t
  | .expansion e => e.eval m

/-- What parts produce one after the other. -/
def evalParts (m : Semantics) : List Part → Inquiry Failure Text
  | [] => pure []
  | p :: ps => do
    let t ← p.eval m
    let u ← evalParts m ps
    pure (t ++ u)

/-- What words produce, each for itself. -/
def evalWords (m : Semantics) : List (List Part) → Inquiry Failure (List Text)
  | [] => pure []
  | w :: ws => do
    let t ← evalParts m w
    let us ← evalWords m ws
    pure (t :: us)

end

/-! ## Templates -/

/-- What a line produces. -/
def Line.eval (m : Semantics) : Line → Inquiry Failure Text
  | .elided => pure []
  | .content indent parts => do
    let t ← evalParts m parts
    pure (indent ++ t ++ ['\n'])

/-- What a template produces. -/
def Template.eval (m : Semantics) : Template → Inquiry Failure Text
  | [] => pure []
  | l :: ls => do
    let t ← l.eval m
    let u ← Template.eval m ls
    pure (t ++ u)

/-- A text that is no template fails with its fault, unless something complete before it fails. -/
def Truncation.eval (m : Semantics) (t : Truncation) : Inquiry Failure Text := do
  let _ ← evalParts m t.before
  .fail (.here t.fault.defect)

/-- What a text produces. -/
def evalText (m : Semantics) (s : Text) : Inquiry Failure Text :=
  match Template.read s with
  | .ok template => template.eval m
  | .error truncation => truncation.eval m

end TextTemplate

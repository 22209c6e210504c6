import TextTemplate.Bindings.Json
import TextTemplate.Bindings.Reader
import TextTemplate.CommandLine.Program
import TextTemplate.Diagnostic
import TextTemplate.Files.Memory
import TextTemplate.Files.Tree
import TextTemplate.Inclusion
import TextTemplate.Main
import TextTemplate.Session
import TextTemplate.Table
import TextTemplate.Template.Evaluation
import TextTemplate.Proofs.Bindings.Concatenation
import TextTemplate.Proofs.Bindings.Json
import TextTemplate.Proofs.Bindings.Lines
import TextTemplate.Proofs.CommandLine.Agreement
import TextTemplate.Proofs.Diagnostic
import TextTemplate.Proofs.Inclusion.Answers
import TextTemplate.Proofs.Inclusion.Concatenation
import TextTemplate.Proofs.Inclusion.Cycle
import TextTemplate.Proofs.Inclusion.Escapes
import TextTemplate.Proofs.Inclusion.Extension
import TextTemplate.Proofs.Inclusion.FinalNewline
import TextTemplate.Proofs.Inclusion.Location
import TextTemplate.Proofs.Inclusion.Pasting
import TextTemplate.Proofs.Inclusion.Resolution
import TextTemplate.Proofs.Inclusion.Separation
import TextTemplate.Proofs.Inclusion.Spelling
import TextTemplate.Proofs.Inclusion.Stack
import TextTemplate.Proofs.Inclusion.Undefined
import TextTemplate.Proofs.Inclusion.Unreadable
import TextTemplate.Proofs.Inclusion.Verbatim
import TextTemplate.Proofs.Pass.Discipline
import TextTemplate.Proofs.References
import TextTemplate.Proofs.Session

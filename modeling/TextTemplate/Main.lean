import TextTemplate.CommandLine.Program

/-!
# Running the program

The outer layer: it answers the program's questions from the file system and carries out its outcome.
-/

namespace TextTemplate

/-- The failure to read a file that the system reports. -/
def ReadFailure.ofError (error : IO.Error) : ReadFailure :=
  let describe (code : UInt32) (details : String) : Text :=
    s!"{details} (os error {code})".toList
  match error with
  | .noFileOrDirectory _ code details => ⟨.notFound, describe code details⟩
  | .permissionDenied _ code details => ⟨.permissionDenied, describe code details⟩
  | .inappropriateType _ code details =>
    ⟨if code = 20 then .notADirectory else .isADirectory, describe code details⟩
  | .invalidArgument _ code details => ⟨.invalidInput, describe code details⟩
  | .interrupted _ code details => ⟨.interrupted, describe code details⟩
  | other => ⟨.other, (toString other).toList⟩

/-- Read the file at a path as text. -/
def readText (path : Path) : IO (Except ReadFailure Text) := do
  try
    let bytes ← IO.FS.readBinFile (String.ofList path.text)
    match String.fromUTF8? bytes with
    | some text => return .ok text.toList
    | none => return .error ⟨.invalidData, "stream did not contain valid UTF-8".toList⟩
  catch error => return .error (.ofError error)

/-- Answer an inquiry that never fails from the file system. -/
def Inquiry.runIO : Inquiry Empty α → IO α
  | .pure a => return a
  | .ask question next => do (next (← readText question.path)).runIO

/-- Carry out an outcome: its exit code. -/
def CommandLine.Outcome.runIO : CommandLine.Outcome → IO UInt32
  | .exit code output report => do
    IO.print (String.ofList output)
    IO.eprint (String.ofList report)
    return code.toUInt32
  | .write path text => do
    try
      IO.FS.writeFile (String.ofList path.text) (String.ofList text)
      return 0
    catch error =>
      IO.eprintln s!"failed to write {String.ofList path.text}: {error}"
      return CommandLine.exitCannotCreate.toUInt32

end TextTemplate

/-- Run the program with its arguments. -/
def main (arguments : List String) : IO UInt32 := do
  let includePath ← IO.getEnv "EXPANDO_INCLUDE_PATH"
  let terminal ← (← IO.getStdout).isTty
  let environment : TextTemplate.CommandLine.Environment := ⟨includePath.map String.toList, terminal⟩
  let program := TextTemplate.CommandLine.program environment (arguments.map String.toList)
  let outcome ← program.runIO
  outcome.runIO

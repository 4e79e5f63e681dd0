import JvmCalls.Command.Run

/-!
# The command

Reads the files the arguments name, runs the command on their contents, and
writes its output and its reports.
-/

namespace JvmCalls.Command

def contentAt (path : String) : IO PathContent := do
  try
    return .file (← IO.FS.readBinFile path).toList
  catch
    | .noFileOrDirectory .. => return .missing
    | _ => return .unreadable

/-- The paths the arguments ask to read. -/
def pathsOf (arguments : List String) : List String :=
  match readArguments arguments with
  | .ok (.extract options) => options.archives
  | _ => []

/-- Writes bytes to the standard output and tells whether it took them. -/
def printBytes (bytes : Bytes) : IO Bool := do
  let output ← IO.getStdout
  try
    output.write ⟨bytes.toArray⟩
    output.flush
    return true
  catch _ => return false

def runProcess (arguments : List String) : IO UInt32 := do
  let contents ← (pathsOf arguments).mapM (fun path => do return (path, ← contentAt path))
  let contentOf := fun path => (contents.lookup path).getD .missing
  let outcome := run arguments contentOf Device.unlimited
  match readArguments arguments with
  | .error fault => IO.eprintln fault.message
  | .ok _ => outcome.reports.forM (fun report => IO.eprintln report.line)
  if ← printBytes outcome.output.bytes then
    return UInt32.ofNat outcome.status
  else
    IO.eprintln Report.flush.line
    return UInt32.ofNat Ending.outputFailed.status

end JvmCalls.Command

def main (arguments : List String) : IO UInt32 :=
  JvmCalls.Command.runProcess arguments

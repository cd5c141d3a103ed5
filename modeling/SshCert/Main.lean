import SshCert.Inspector.Report
import SshCert.Suite.Standard
import Std.Time.DateTime.Timestamp

/-
  The certificate inspector as a program. It reads the files that the arguments name, inspects,
  and writes what the report says.
-/

namespace SshCert.Inspector

/-- The named file with its content, if it can be read. -/
def readNamed (name : Bytes) : IO (Option (Bytes × Bytes)) := do
  match String.fromUTF8? ⟨name.toArray⟩ with
  | none => return none
  | some path =>
    try
      let data ← IO.FS.readBinFile path
      return some (name, data.toList)
    catch _ => return none

/-- Runs the inspector at the current time. -/
def runProgram (args : List Bytes) : IO UInt32 := do
  let now ← Std.Time.Timestamp.now
  let files ← (filesNamed args).filterMapM readNamed
  let seconds := UInt64.ofInt now.toSecondsSinceUnixEpoch.toInt
  let report := run Suite.standard (.ofList files) seconds args
  (← IO.getStdout).write ⟨report.output.toArray⟩
  (← IO.getStderr).write ⟨report.errors.toArray⟩
  return report.exitCode

end SshCert.Inspector

/-- The entry point. -/
def main (args : List String) : IO UInt32 :=
  SshCert.Inspector.runProgram (args.map (·.toUTF8.toList))

import SshCert.Certificate.TextLine
import SshCert.Inspector.Check

/-
  The certificate inspector: what it reads, what it shows and how it ends.
  It ends with 0 if all checks pass and with 2 if one does not. It ends with 1 if there is
  nothing to check: the arguments, a file or the certificate cannot be read.
-/

namespace SshCert.Inspector

/-- Why there is nothing to check. -/
inductive Failure
  | commandLine (e : CommandLine.Error)
  | noFile
  | cannotOpen (file : Bytes)
  | noCertificate (e : Certificate.Error)
  deriving DecidableEq, Repr

/-- The failure in words. -/
def Failure.message : Failure → Bytes
  | .commandLine e => e.message
  | .noFile => ascii "certificate file not given"
  | .cannotOpen file => ascii "failed to open file '" ++ file ++ ascii "'"
  | .noCertificate e => e.message

/-- How the inspector ends and what it writes to its two outputs. -/
structure Report where
  exitCode : UInt32
  output : Bytes
  errors : Bytes
  deriving DecidableEq, Repr

namespace Report

/-- The end by a failure, after some output; its message ends at a zero byte. -/
def failed (output : Bytes) (f : Failure) : Report :=
  ⟨1, output, ascii "Exception: " ++ Bytes.untilNul f.message ++ ascii "\n"⟩

/-- The end after all checks. -/
def ofChecks (output : Bytes) (checks : List Check) : Report :=
  ⟨if checks.all (·.passed) then 0 else 2, output ++ checks.flatMap (·.output), []⟩

end Report

/-- The files that can be read, by the names that are given for them. -/
abbrev Files := Bytes → Option Bytes

namespace Files

/-- The files of a list of names and contents. -/
def ofList (files : List (Bytes × Bytes)) : Files := fun name => files.lookup name

/-- The content of a file. -/
def read (files : Files) (name : Bytes) : Except Failure Bytes :=
  match files name with
  | some data => .ok data
  | none => .error (.cannotOpen name)

end Files

/-- The certificate in a file: all of it, or the text of its first line. -/
def certificateIn (data : Bytes) : Except Failure Bytes :=
  if Certificate.isCertificate data then .ok data
  else (Certificate.parseLine (data.takeWhile (· != 0x0a))).mapError .noCertificate

namespace Command

/-- The certificate that is to be inspected: the name of its file and its bytes. -/
def certificate (c : Command) (files : Files) : Except Failure (Bytes × Bytes) := do
  match c.certificateFile? with
  | none => throw .noFile
  | some file => return (file, ← certificateIn (← files.read file))

/-- The content of the private key file, if there is one. -/
def keyText (c : Command) (files : Files) : Except Failure (Option Bytes) :=
  match c.keyFile? with
  | none => .ok none
  | some file => (files.read file).map some

/-- Inspects a certificate at the given time. -/
def run (s : Suite) (files : Files) (now : UInt64) (cmd : Command) : Report :=
  match cmd.certificate files with
  | .error f => .failed [] f
  | .ok (file, blob) =>
    let decoded := Certificate.decodeLogged blob
    let output := cmd.shown decoded.lines
    match decoded.value with
    | .error e => ⟨1, output, file ++ ascii ": " ++ e.message ++ ascii "\n"⟩
    | .ok c =>
      let first := [Check.signature s cmd file blob c, Check.trust s cmd c]
      match cmd.keyText files with
      | .error f => .failed (output ++ first.flatMap (·.output)) f
      | .ok key? => .ofChecks output (first ++ [Check.key s cmd blob key?, Check.user cmd now c])

end Command

/-- The files that the arguments may ask to read. -/
def filesNamed (args : List Bytes) : List Bytes :=
  match Command.parse args with
  | .error _ => []
  | .ok cmd => cmd.certificateFile?.toList ++ cmd.keyFile?.toList

/-- Does what the arguments ask for. -/
def run (s : Suite) (files : Files) (now : UInt64) (args : List Bytes) : Report :=
  match Command.parse args with
  | .error e => .failed [] (.commandLine e)
  | .ok cmd => if cmd.help then ⟨0, help, []⟩ else cmd.run s files now

end SshCert.Inspector

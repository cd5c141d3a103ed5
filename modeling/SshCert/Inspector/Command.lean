import SshCert.Certificate.Validity
import SshCert.CommandLine.Basic
import SshCert.Journal.Logger

/-
  What the certificate inspector is asked to do.
  `Command.parse` reads it from the arguments of a command line. The certificate stands in the
  file that is given by name or else in the first positional argument.
-/

namespace SshCert.Inspector

open CommandLine (Parameter)

/-- The parameters of the inspector as they are before any argument. -/
def parameters : List Parameter :=
  [⟨ascii "help", ascii "h", ascii "show help", .flag false⟩,
   ⟨ascii "verbose", ascii "v", ascii "verbose logging", .flag false⟩,
   ⟨ascii "file", ascii "f",
    ascii "certificate file, either openssh public key line or binary", .single .text []⟩,
   ⟨ascii "user", ascii "u",
    ascii "validate the certificate for the user name", .optional .text none⟩,
   ⟨ascii "now", [], ascii "unix time used for validation instead of current time",
    .optional .word none⟩,
   ⟨ascii "check-host-principals", [], ascii "check principals also for host certificates",
    .flag false⟩,
   ⟨ascii "trusted-ca", ascii "ca",
    ascii "trusted certificate authority fingerprints (SHA256:...)", .list .text []⟩,
   ⟨ascii "key", ascii "k", ascii "openssh private key file that the certificate must match",
    .single .text []⟩]

/-- What the inspector is asked to do. -/
structure Command where
  help : Bool
  /-- Show all log lines and not only errors. -/
  verbose : Bool
  /-- The file given by name; empty if none is. -/
  file : Bytes
  /-- The name that the certificate has to be valid for. -/
  user? : Option Bytes
  /-- The time to validate at instead of the current one. -/
  now? : Option UInt64
  policy : Certificate.Policy
  /-- The fingerprints of the trusted authorities; all are trusted if there are none. -/
  trusted : List Bytes
  /-- The private key file that the certificate has to be for; empty if none is. -/
  keyFile : Bytes
  positionals : List Bytes
  deriving DecidableEq, Repr

namespace Command

/-- The command that a command line with these parameters gives. -/
def ofLine (line : CommandLine) : Command where
  help := line.flag "help"
  verbose := line.flag "verbose"
  file := line.text "file"
  user? := line.text? "user"
  now? := line.word? "now"
  policy := ⟨line.flag "check-host-principals"⟩
  trusted := line.texts "trusted-ca"
  keyFile := line.text "key"
  positionals := line.positionals

/-- The command that the arguments give. -/
def parse (args : List Bytes) : Except CommandLine.Error Command :=
  match CommandLine.parse ⟨parameters, []⟩ args with
  | (line, none) => .ok (ofLine line)
  | (_, some e) => .error e

/-- The file that holds the certificate. -/
def certificateFile? (c : Command) : Option Bytes :=
  let file := if c.file.isEmpty then c.positionals.headD [] else c.file
  if file.isEmpty then none else some file

/-- The file that holds the private key. -/
def keyFile? (c : Command) : Option Bytes := if c.keyFile.isEmpty then none else some c.keyFile

/-- The levels of the log lines that are shown. -/
def levels (c : Command) : Levels := if c.verbose then Levels.all else Level.error.bit

/-- The log lines as they are shown. -/
def shown (c : Command) (lines : List Line) : Bytes :=
  lines.flatMap fun l => consoleLine c.levels l.level.bit l.text

end Command

/-- What is shown when help is asked for. -/
def help : Bytes :=
  ascii "certauth certificate inspector\n"
    ++ ascii "usage: cert_inspect [options] <certificate file>\n"
    ++ CommandLine.help ⟨parameters, []⟩

end SshCert.Inspector

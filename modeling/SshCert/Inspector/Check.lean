import SshCert.Inspector.Command
import SshCert.Login.Credential

/-
  The checks of the certificate inspector.
  Each check passes or not and has something to show. A check that was not asked for passes and
  shows nothing.
-/

namespace SshCert.Inspector

/-- A check that was made. -/
structure Check where
  passed : Bool
  output : Bytes
  deriving DecidableEq, Repr

namespace Check

/-- A check that was not asked for. -/
def skipped : Check := ⟨true, []⟩

/-! ## The certificate and its signature -/

/-- The time that is shown as no end: the last one. -/
def forever : UInt64 := 0xffffffffffffffff

/-- A bound of the validity. -/
def boundText (t : UInt64) : Bytes :=
  if t = 0 then ascii "always"
  else if t = forever then ascii "forever"
  else Text.decimal t.toNat

/-- What stands behind the title of a list without items. -/
def noneText {α : Type} (items : List α) : Bytes := if items.isEmpty then ascii " (none)" else []

/-- The options under a title, each with its value as hexadecimal pairs. -/
def optionsText (title : String) (m : OptionMap) : Bytes :=
  ascii "        " ++ ascii title ++ ascii ":" ++ noneText m.entries ++ ascii "\n"
    ++ m.entries.flatMap fun (name, value) =>
      ascii "        " ++ name ++ (if value.isEmpty then [] else ascii " " ++ Text.colonHex value)
        ++ ascii "\n"

/-- The certificate in words. -/
def describe (c : Certificate) (fingerprint : Bytes) (signed : Bool) : Bytes :=
  ascii "        Type: " ++ c.algorithm ++ ascii " " ++ c.type.name ++ ascii " certificate\n"
    ++ ascii "        Key ID: \"" ++ c.keyId ++ ascii "\"\n"
    ++ ascii "        Serial: " ++ Text.decimal c.serial.toNat ++ ascii "\n"
    ++ ascii "        Valid: from " ++ boundText c.validAfter
    ++ ascii " to " ++ boundText c.validBefore ++ ascii "\n"
    ++ ascii "        Principals:" ++ noneText c.principals ++ ascii "\n"
    ++ c.principals.flatMap (fun p => ascii "                " ++ p ++ ascii "\n")
    ++ ascii "        Signing CA: " ++ fingerprint
    ++ ascii " (signature " ++ (if signed then ascii "valid" else ascii "INVALID") ++ ascii ")\n"
    ++ optionsText "Critical Options" c.criticalOptions
    ++ optionsText "Extensions" c.extensions

/-- Whether the authority has signed the certificate, whose description is shown. -/
def signature (s : Suite) (cmd : Command) (file blob : Bytes) (c : Certificate) : Check :=
  let signed := c.verifySignature s blob
  ⟨signed.value,
   cmd.shown signed.lines ++ file ++ ascii ":\n"
     ++ describe c (c.authorityFingerprint s) signed.value⟩

/-! ## What the command asks for -/

/-- Whether the authority is among the trusted ones. -/
def trust (s : Suite) (cmd : Command) (c : Certificate) : Check :=
  let fingerprint := c.authorityFingerprint s
  if cmd.trusted.isEmpty || cmd.trusted.contains fingerprint then skipped
  else ⟨false, ascii "Certificate authority not trusted: " ++ fingerprint ++ ascii "\n"⟩

/-- A text file without the line ends at its end. -/
def withoutLineEnds (s : Bytes) : Bytes :=
  (s.reverse.dropWhile fun c => c == 0x0a || c == 0x0d).reverse

/-- Whether the certificate is for the private key in the file. -/
def key (s : Suite) (cmd : Command) (blob : Bytes) : Option Bytes → Check
  | none => skipped
  | some file =>
    let loaded := Login.Credential.load s (withoutLineEnds file) (.binary blob)
    match loaded.value with
    | .ok _ => ⟨true, cmd.shown loaded.lines ++ ascii "Certificate matches private key\n"⟩
    | .error e =>
      ⟨false, cmd.shown loaded.lines
        ++ ascii "Certificate does not match private key: " ++ e.message ++ ascii "\n"⟩

/-- Whether the certificate is valid for the user. -/
def user (cmd : Command) (now : UInt64) (c : Certificate) : Check :=
  match cmd.user? with
  | none => skipped
  | some name =>
    match c.invalidity? cmd.policy name (cmd.now?.getD now) with
    | none => ⟨true, ascii "Certificate is valid for \"" ++ name ++ ascii "\"\n"⟩
    | some reason => ⟨false, ascii "Certificate is not valid: " ++ reason.message ++ ascii "\n"⟩

end Check

end SshCert.Inspector

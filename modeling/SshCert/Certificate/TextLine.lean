import SshCert.Certificate.Sniff
import SshCert.Text.Base64

/-
  Certificates written as a line of text: the algorithm, the base64 of the certificate and an
  optional comment.
-/

namespace SshCert.Certificate

/-- The certificate of a text line. Its first token must be the algorithm in the data. -/
def parseLine (line : Bytes) : Except Error Bytes :=
  let (type, rest) := Text.token line
  let (data, _) := Text.token rest
  if type.isEmpty || data.isEmpty then .error .incompleteLine
  else if !isCertificateName type then .error (.notCertificateType type)
  else
    match Base64.decode data with
    | none => .error .badBase64
    | some b =>
      match algorithm? b with
      | none => .error .notCertificate
      | some dataType =>
        if dataType = type then .ok b else .error (.typeMismatch type dataType)

/-- A certificate as it is configured. -/
inductive Source
  | absent
  | binary (b : Bytes)
  | text (line : Bytes)
  deriving DecidableEq, Repr

/-- The source with a text line replaced by the certificate it holds. -/
def Source.toBinary : Source → Except Error Source
  | .text line => (parseLine line).map .binary
  | s => .ok s

end SshCert.Certificate

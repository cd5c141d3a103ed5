import SshCert.Bytes

/-
  Why a certificate, or the key that belongs to it, cannot be used.
  Every cause has a kind, which callers tell apart, and a message for the reader.
-/

namespace SshCert.Certificate

/-- The fields of a certificate, in the order in which they stand. -/
inductive Field
  | algorithm
  | nonce
  | publicKey
  | serial
  | type
  | keyId
  | principals
  | validAfter
  | validBefore
  | criticalOptions
  | extensions
  | reserved
  | signatureKey
  | signature
  deriving DecidableEq, Repr

/-- The name of a field in messages. -/
def Field.name : Field → Bytes
  | .algorithm => ascii "algorithm"
  | .nonce => ascii "nonce"
  | .publicKey => ascii "public key"
  | .serial => ascii "serial"
  | .type => ascii "type"
  | .keyId => ascii "key id"
  | .principals => ascii "principals"
  | .validAfter => ascii "valid after"
  | .validBefore => ascii "valid before"
  | .criticalOptions => ascii "critical options"
  | .extensions => ascii "extensions"
  | .reserved => ascii "reserved"
  | .signatureKey => ascii "signature key"
  | .signature => ascii "signature"

/-- The entries that are nested in fields. -/
inductive Entry
  | principal
  | criticalOption
  | extension
  deriving DecidableEq, Repr

/-- The name of an entry in messages. -/
def Entry.name : Entry → Bytes
  | .principal => ascii "principal"
  | .criticalOption => ascii "critical option"
  | .extension => ascii "extension"

/-- What callers tell apart about an error. -/
inductive ErrorKind
  | notBinary
  | notCertificate
  | invalidCertificate
  | unsupportedKeyType
  | invalidKey
  deriving DecidableEq, Repr

/-- The words for a kind of error. -/
def ErrorKind.name : ErrorKind → Bytes
  | .notBinary => ascii "not a buffer"
  | .notCertificate => ascii "not a certificate"
  | .invalidCertificate => ascii "invalid certificate"
  | .unsupportedKeyType => ascii "unsupported key type"
  | .invalidKey => ascii "invalid key"

/-- The causes. -/
inductive Error
  /-- The data ends inside a field. -/
  | truncated (field : Field)
  /-- A field ends inside one of its entries. -/
  | truncatedEntry (entry : Entry)
  /-- No family of keys has this algorithm. -/
  | unsupportedAlgorithm (algorithm : Bytes)
  /-- A text line lacks the type or the data. -/
  | incompleteLine
  /-- The type of a text line is not that of a certificate. -/
  | notCertificateType (type : Bytes)
  /-- The data of a text line is not base64. -/
  | badBase64
  /-- The type of a text line is not the one in its data. -/
  | typeMismatch (type dataType : Bytes)
  /-- The data does not begin like a certificate. -/
  | notCertificate
  /-- The certificate is absent or still a text. -/
  | notBinary
  /-- There is no key to combine the certificate with. -/
  | missingKey
  /-- The private key could not be loaded. -/
  | privateKeyNotLoaded
  /-- The certificate is for another key. -/
  | keyMismatch
  deriving DecidableEq, Repr

namespace Error

/-- The kind of an error. -/
def kind : Error → ErrorKind
  | .truncated _ => .invalidCertificate
  | .truncatedEntry _ => .invalidCertificate
  | .unsupportedAlgorithm _ => .unsupportedKeyType
  | .incompleteLine => .notCertificate
  | .notCertificateType _ => .notCertificate
  | .badBase64 => .invalidCertificate
  | .typeMismatch _ _ => .invalidCertificate
  | .notCertificate => .notCertificate
  | .notBinary => .notBinary
  | .missingKey => .invalidKey
  | .privateKeyNotLoaded => .invalidKey
  | .keyMismatch => .invalidKey

/-- The message of an error. -/
def message : Error → Bytes
  | .truncated field => ascii "Invalid certificate: truncated " ++ field.name
  | .truncatedEntry entry => ascii "Invalid certificate: truncated " ++ entry.name
  | .unsupportedAlgorithm algorithm => ascii "Unsupported certificate type: " ++ algorithm
  | .incompleteLine => ascii "Certificate text must have type and data"
  | .notCertificateType type => ascii "Not a certificate type: " ++ type
  | .badBase64 => ascii "Invalid certificate: bad base64 data"
  | .typeMismatch type dataType =>
    ascii "Invalid certificate: type " ++ type ++ ascii " does not match the data type " ++ dataType
  | .notCertificate => ascii "Buffer does not appear to be a certificate"
  | .notBinary => ascii "Certificate must be binary data"
  | .missingKey => ascii "Missing key for certificate"
  | .privateKeyNotLoaded => ascii "Failed to load private key"
  | .keyMismatch => ascii "Certificate does not match the private key"

end Error

end SshCert.Certificate

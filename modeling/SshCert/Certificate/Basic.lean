import SshCert.Algorithm.Certified
import SshCert.Certificate.OptionMap
import SshCert.Wire.Value

/-
  Certificates: their fields and the wire form of those.
  `signedFields` are the fields that the authority signs and `encode` puts the signature behind
  them. The key material is kept as it stands on the wire, with the length of every part.
-/

namespace SshCert

/-- Whom a certificate is for. -/
inductive CertificateType
  | user
  | host
  | unknown
  deriving DecidableEq, Repr

namespace CertificateType

/-- The word printed for a type. -/
def name : CertificateType → Bytes
  | .user => ascii "user"
  | .host => ascii "host"
  | .unknown => unknownName

/-- The type that a code on the wire stands for. -/
def ofCode (code : UInt32) : CertificateType :=
  if code = 1 then .user else if code = 2 then .host else .unknown

end CertificateType

/-- A certificate. -/
structure Certificate where
  algorithm : Bytes
  nonce : Bytes
  /-- The public key of the subject: length-prefixed strings, as many as its family has. -/
  keyMaterial : Bytes
  serial : UInt64
  type : CertificateType
  /-- The code of the type on the wire. -/
  typeCode : UInt32
  keyId : Bytes
  /-- The names it is valid for; for every name if there are none. -/
  principals : List Bytes
  validAfter : UInt64
  validBefore : UInt64
  criticalOptions : OptionMap
  extensions : OptionMap
  reserved : Bytes
  /-- The public key blob of the authority. -/
  signatureKey : Bytes
  /-- The signature blob of the authority. -/
  signature : Bytes
  deriving DecidableEq, Repr

namespace Certificate

/-- The code that is written for the type: its own if the type is known, else the one kept. -/
def writtenType (c : Certificate) : UInt32 :=
  match c.type with
  | .user => 1
  | .host => 2
  | .unknown => c.typeCode

/-- The entries of an option map, names and values in turn. -/
def encodeOptions (m : OptionMap) : Bytes :=
  Wire.encodeStrings (m.entries.flatMap fun e => [e.1, e.2])

/-- The fields that the authority signs. -/
def signedFields (c : Certificate) : List Wire.Value :=
  [.string c.algorithm,
   .string c.nonce,
   .bytes c.keyMaterial,
   .u64 c.serial,
   .u32 c.writtenType,
   .string c.keyId,
   .string (Wire.encodeStrings c.principals),
   .u64 c.validAfter,
   .u64 c.validBefore,
   .string (encodeOptions c.criticalOptions),
   .string (encodeOptions c.extensions),
   .string c.reserved,
   .string c.signatureKey]

/-- The bytes that the authority signs. -/
def signedMessage (c : Certificate) : Bytes := Wire.encodeAll c.signedFields

/-- The wire form of the certificate. -/
def encode (c : Certificate) : Bytes :=
  Wire.encodeAll (c.signedFields ++ [.string c.signature])

theorem encode_eq (c : Certificate) :
    c.encode = c.signedMessage ++ Wire.encodeString c.signature := by
  simp [encode, signedMessage, Wire.encodeAll, Wire.encodeString]

end Certificate

end SshCert

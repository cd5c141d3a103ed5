import SshCert.Algorithm.Name
import SshCert.Der.Oid
import SshCert.Text.Pem
import SshCert.Wire.Sink

/-
  Public keys: their values, their blobs and their DER form.
  A blob is the name of the type followed by the fields of the type; `parse` reads the values
  and says why it cannot, `encode` writes them. What makes values a key beyond their form is
  decided elsewhere. `subjectInfo` writes the same values as a SubjectPublicKeyInfo.
-/

namespace SshCert

/-- The values of a public key. -/
inductive PublicKey
  | ed25519 (key : Bytes)
  | rsa (e n : Bytes)
  | ecdsa (c : Curve) (point : Bytes)
  deriving DecidableEq, Repr

namespace PublicKey

/-- The type of the key. -/
def type : PublicKey → KeyType
  | .ed25519 _ => .ed25519
  | .rsa _ _ => .rsa
  | .ecdsa c _ => .ecdsa c

/-! ## Blobs -/

/-- The fields behind the name of the type. -/
def fields : PublicKey → List Wire.Value
  | .ed25519 key => [.string key]
  | .rsa e n => [.mpint (.unsigned e), .mpint (.unsigned n)]
  | .ecdsa c point => [.string c.name, .string point]

/-- The values of the blob. -/
def values (k : PublicKey) : List Wire.Value := .string k.type.name :: k.fields

/-- The blob of the key. -/
def encode (k : PublicKey) : Bytes := Wire.encodeAll k.values

/-- Why a blob does not hold a key. -/
inductive BlobError
  | noType
  | unsupported (type : Option KeyType)
  | otherCurve (curve : Bytes) (type : KeyType)
  | badFields (type : KeyType)
  deriving DecidableEq, Repr

/-- The log message for an unreadable blob and what fills its placeholders. -/
def BlobError.message : BlobError → String × List Bytes
  | .noType => ("Failed to read public key type", [])
  | .unsupported type => ("Unsupported public key type: {}", [KeyType.label type])
  | .otherCurve curve type => ("Curve {} does not match key type {}", [curve, type.name])
  | .badFields type => ("Invalid {} public key fields", [type.name])

/-- Two strings from the front of the bytes. -/
def twoStrings? (b : Bytes) : Option (Bytes × Bytes) := do
  let (first, rest) ← Wire.string b
  let (second, _) ← Wire.string rest
  return (first, second)

/-- The values in the fields of a key of the type; numbers lose their leading zeros. -/
def parseFields (type : Option KeyType) (b : Bytes) : Except BlobError PublicKey :=
  match type with
  | some .ed25519 =>
    match Wire.string b with
    | some (key, _) =>
      if key.length = ed25519KeySize then .ok (.ed25519 key) else .error (.badFields .ed25519)
    | none => .error (.badFields .ed25519)
  | some .rsa =>
    match twoStrings? b with
    | some (e, n) => .ok (.rsa (Bytes.dropZeros e) (Bytes.dropZeros n))
    | none => .error (.badFields .rsa)
  | some (.ecdsa c) =>
    match twoStrings? b with
    | some (curve, point) =>
      if curve = c.name then .ok (.ecdsa c point) else .error (.otherCurve curve (.ecdsa c))
    | none => .error (.badFields (.ecdsa c))
  | other => .error (.unsupported other)

/-- The values in a blob; bytes behind the fields are ignored. -/
def parse (b : Bytes) : Except BlobError PublicKey :=
  match Wire.string b with
  | none => .error .noType
  | some (name, rest) => parseFields (KeyType.ofName? name) rest

/-! ## DER -/

/-- The identifier of the key's algorithm. -/
def algorithmInfo : PublicKey → List Bytes
  | .ed25519 _ => [Der.oid Der.ed25519]
  | .rsa _ _ => [Der.oid Der.rsaEncryption, Der.null]
  | .ecdsa c _ => [Der.oid Der.ecPublicKey, Der.oid (Der.ofCurve c)]

/-- The bits of the key. -/
def keyBits : PublicKey → Bytes
  | .ed25519 key => key
  | .rsa e n => Der.sequence [Der.integer n, Der.integer e]
  | .ecdsa _ point => point

/-- The key as a SubjectPublicKeyInfo. -/
def subjectInfo (k : PublicKey) : Bytes :=
  Der.sequence [Der.sequence k.algorithmInfo, Der.bitString k.keyBits]

/-- The key as a PEM text. -/
def pem (k : PublicKey) : Bytes := Pem.armour (ascii "PUBLIC KEY") k.subjectInfo

end PublicKey

end SshCert

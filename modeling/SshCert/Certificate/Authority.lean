import SshCert.Certificate.Decode
import SshCert.Key.Signature

/-
  The keys of a certificate: the subject's, which it certifies, and the authority's, which
  signed it.
  The authority signs all bytes of the certificate in front of the signature field, so
  `signedPart?` cuts that field off the end of the data before the signature is verified.
-/

namespace SshCert.Certificate

/-- The blob of the certified key: its plain algorithm and the key material. -/
def certifiedBlob (c : Certificate) : Bytes :=
  Wire.encodeAll [.string (plainName c.algorithm), .bytes c.keyMaterial]

/-- The certified key. -/
def certifiedKey (s : Suite) (c : Certificate) : Logged (Option PublicKey) := do
  let key? ← s.loadPublic c.certifiedBlob
  if key?.isNone then log .debug "Unable to load certified key of type {}" [c.algorithm]
  return key?

/-- The key of the authority. -/
def authorityKey (s : Suite) (c : Certificate) : Logged (Option PublicKey) := do
  let key? ← s.loadPublic c.signatureKey
  if key?.isNone then log .debug "Unable to load certificate authority key" []
  return key?

/-- The fingerprint of the authority, over its key as it stands in the certificate. -/
def authorityFingerprint (s : Suite) (c : Certificate) : Bytes :=
  Suite.fingerprintText (s.digest .sha256 [c.signatureKey])

/-- Why the signed part of certificate data cannot be told. -/
inductive UnsignedData
  | tooSmall
  | noSignatureAtEnd
  deriving DecidableEq, Repr

/-- The log message for it. -/
def UnsignedData.message : UnsignedData → String
  | .tooSmall => "Certificate data too small for signature"
  | .noSignatureAtEnd => "Certificate data does not end with the signature"

/-- The data in front of the signature field, which must be the end of the data. -/
def signedPart (c : Certificate) (data : Bytes) : Except UnsignedData Bytes :=
  let size := 4 + c.signature.length
  if data.length < size then .error .tooSmall
  else
    let cut := data.length - size
    if Wire.string (data.drop cut) = some (c.signature, []) then .ok (data.take cut)
    else .error .noSignatureAtEnd

/-- Whether the data of the certificate is signed by its authority. -/
def verifySignature (s : Suite) (c : Certificate) (data : Bytes) : Logged Bool :=
  match c.signedPart data with
  | .error e => do
    log .debug e.message []
    return false
  | .ok message => do
    match ← c.authorityKey s with
    | none => return false
    | some key =>
      let valid := s.verifyBlob key message c.signature
      if !valid then
        log .info "Certificate signature verification failed [key id={}]" [c.keyId]
      return valid

end SshCert.Certificate

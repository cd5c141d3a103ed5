import SshCert.Certificate.Authority
import SshCert.Certificate.TextLine
import SshCert.Key.Identity

/-
  Credentials: an identity together with a certificate for its key.
  The identity does all signing and verifying; the certificate is sent in the bytes that it
  came in. `load` makes sure that the certificate is for the very key that signs.
-/

namespace SshCert.Login

/-- An identity with a certificate. -/
structure Credential where
  identity : Identity
  certificate : Certificate
  /-- The bytes that the certificate was decoded from. -/
  blob : Bytes
  deriving DecidableEq, Repr

namespace Credential

/-- Combines an identity with a certificate, which must be binary by now. -/
def combine (identity? : Option Identity) :
    Certificate.Source → Except Certificate.Error Credential
  | .binary b =>
    if !Certificate.isCertificate b then .error .notCertificate
    else
      match Certificate.decode b with
      | .error e => .error e
      | .ok c =>
        match identity? with
        | none => .error .missingKey
        | some i => .ok ⟨i, c, b⟩
  | _ => .error .notBinary

/-- Whether the certificate is for the key of the identity. -/
def fits (c : Credential) : Bool := c.certificate.certifiedBlob == c.identity.key.encode

/-- The credential of a private key file and a certificate. -/
def load (s : Suite) (file : Bytes) (source : Certificate.Source) :
    Logged (Except Certificate.Error Credential) := do
  let loaded ← s.loadPrivate file
  if loaded.key?.isNone then
    log .error "Failed to load private key for certificate authentication" []
    return .error .privateKeyNotLoaded
  match source.toBinary with
  | .error e =>
    log .error "Failed to parse certificate: {}" [e.message]
    return .error e
  | .ok binary =>
    let identity? ← Identity.ofPrivate s loaded
    match combine identity? binary with
    | .error e =>
      log .error "Failed to load certificate: {}" [e.message]
      return .error e
    | .ok c =>
      if !c.fits then
        log .error "Certificate is not for the private key [key id={}]" [c.certificate.keyId]
        return .error .keyMismatch
      log .debug "Loaded certificate [key id={}, serial={}]"
        [c.certificate.keyId, Text.decimal c.certificate.serial.toNat]
      return .ok c

end Credential

end SshCert.Login

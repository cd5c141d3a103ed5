import SshCert.Login.Credential
import SshCert.Login.Request

/-
  The client's side of a login: queries and signed requests made with a credential.
-/

namespace SshCert.Login.Credential

/-- The part in front of the signature of a request for the credential. -/
def head (c : Credential) (user service hint : Bytes) (isAuth : Bool) : Head where
  user := user
  service := service
  isAuth := isAuth
  algorithm := requestName c.certificate.algorithm hint
  blob := c.blob

/-- The payload that asks whether the credential would do. -/
def query (c : Credential) (user service hint : Bytes) : Bytes :=
  (c.head user service hint false).encode

/-- The payload of a request signed by the algorithm of the hint. -/
def request (s : Suite) (c : Credential) (session user service hint : Bytes)
    (random : RandomSource) : Logged (Option Bytes) := do
  log .trace "creating certificate auth request [username={}, service={}]" [user, service]
  if !c.identity.canSign then
    log .error "Certificate auth requires private key" []
    return none
  let head := c.head user service hint true
  match ← c.identity.sign s hint (signatureMessage session head.encode) random with
  | none =>
    log .error "Failed to sign certificate auth request [algorithm={}]" [head.algorithm]
    return none
  | some signature =>
    log .debug "Certificate auth request [algorithm={}, key id={}, serial={}]"
      [head.algorithm, c.certificate.keyId, Text.decimal c.certificate.serial.toNat]
    return some (head.encode ++ Wire.encodeString signature)

end SshCert.Login.Credential

import SshCert.Certificate.Authority
import SshCert.Certificate.Sniff
import SshCert.Certificate.Validity
import SshCert.Login.Request

/-
  The server's side of a login: deciding about requests that carry a certificate.
  A request that is none of the server's business is not applicable. Otherwise the certificate
  is vetted, which is all that a query needs, and a signed request must also be signed by the
  certified key. The first check that fails gives the reason.
-/

namespace SshCert.Login

/-! ## Outcomes -/

/-- How a login attempt ended. -/
inductive State
  | notApplicable
  | failed
  | succeeded
  deriving DecidableEq, Repr

/-- The words for a state. -/
def State.name : State → Bytes
  | .notApplicable => ascii "not applicable"
  | .failed => ascii "failed"
  | .succeeded => ascii "succeeded"

/-- Why a request is left to others. -/
inductive Inapplicable
  | notRequest
  | notCertificate
  deriving DecidableEq, Repr

/-- The reason in words. -/
def Inapplicable.message : Inapplicable → Bytes
  | .notRequest => ascii "Not a publickey request"
  | .notCertificate => ascii "Public key is not a certificate"

/-- Why a request is refused. -/
inductive Refusal
  | undecodable (e : Certificate.Error)
  | algorithmMismatch (algorithm : Bytes)
  | notUser
  | badCertificateSignature
  | untrustedAuthority (fingerprint : Bytes)
  | notValid (i : Certificate.Invalidity)
  | unsupportedKey (algorithm : Bytes)
  | signatureAlgorithm
  | badSignature
  deriving DecidableEq, Repr

/-- The reason in words. -/
def Refusal.message : Refusal → Bytes
  | .undecodable e => e.message
  | .algorithmMismatch algorithm => ascii "Certificate algorithm mismatch: " ++ algorithm
  | .notUser => ascii "Not a user certificate"
  | .badCertificateSignature => ascii "Certificate signature verification failed"
  | .untrustedAuthority fingerprint => ascii "Certificate authority not trusted: " ++ fingerprint
  | .notValid i => i.message
  | .unsupportedKey algorithm => ascii "Unsupported certified key: " ++ algorithm
  | .signatureAlgorithm => ascii "Signature algorithm does not match the request"
  | .badSignature => ascii "Verifying signature failed"

/-- The end of a login attempt, with the certificate if it could be decoded. -/
inductive Outcome
  | notApplicable (why : Inapplicable)
  | failed (why : Refusal) (certificate? : Option Certificate)
  | succeeded (query : Bool) (certificate : Certificate)
  deriving DecidableEq, Repr

namespace Outcome

/-- How the attempt ended. -/
def state : Outcome → State
  | .notApplicable _ => .notApplicable
  | .failed _ _ => .failed
  | .succeeded _ _ => .succeeded

/-- Why it did not succeed, empty if it did. -/
def reason : Outcome → Bytes
  | .notApplicable why => why.message
  | .failed why _ => why.message
  | .succeeded _ _ => []

/-- Whether it was a query that succeeded. -/
def isQuery : Outcome → Bool
  | .succeeded query _ => query
  | _ => false

/-- The certificate if it could be decoded. -/
def certificate? : Outcome → Option Certificate
  | .notApplicable _ => none
  | .failed _ c => c
  | .succeeded _ c => some c

end Outcome

/-! ## Decisions -/

/-- What a server trusts and asks for. -/
structure ServerConfig where
  /-- The fingerprints of the authorities that may sign user certificates. -/
  trusted : List Bytes := []
  policy : Certificate.Policy := {}
  deriving DecidableEq, Repr

/-- Whether the authority with the fingerprint is listed. -/
def ServerConfig.trusts (config : ServerConfig) (fingerprint : Bytes) : Bool :=
  config.trusted.contains fingerprint

/-- A server: its suite, the authorities it lets sign a certificate, and its policy. -/
structure Server where
  suite : Suite
  /-- Whether the authority with the fingerprint may sign the certificate. -/
  trusts : Certificate → Bytes → Bool
  policy : Certificate.Policy

/-- The server that trusts the listed authorities. -/
def Server.ofConfig (suite : Suite) (config : ServerConfig) : Server where
  suite := suite
  trusts _ fingerprint := config.trusts fingerprint
  policy := config.policy

namespace Server

/-- Everything about a certificate that does not need the signature of the request. Gives the
fingerprint of the authority. -/
def vet (v : Server) (head : Head) (c : Certificate) (now : UInt64) :
    Logged (Except Refusal Bytes) := do
  if !requestNameFits head.algorithm c.algorithm then
    return .error (.algorithmMismatch head.algorithm)
  if c.type ≠ .user then return .error .notUser
  if !(← c.verifySignature v.suite head.blob) then return .error .badCertificateSignature
  let fingerprint := c.authorityFingerprint v.suite
  if !v.trusts c fingerprint then return .error (.untrustedAuthority fingerprint)
  match c.invalidity? v.policy head.user now with
  | some i => return .error (.notValid i)
  | none => return .ok fingerprint

/-- Whether the certified key made the signature of the request. -/
def checkSignature (v : Server) (r : Request) (c : Certificate) (message : Bytes) :
    Logged (Except Refusal Unit) := do
  match ← c.certifiedKey v.suite with
  | none => return .error (.unsupportedKey c.algorithm)
  | some key =>
    if !(SignatureBlob.parse r.signature).any (·.algorithm == signatureName r.head.algorithm) then
      return .error .signatureAlgorithm
    if !v.suite.verifyBlob key message r.signature then return .error .badSignature
    return .ok ()

/-- Refuses a request. -/
def fail (why : Refusal) (certificate? : Option Certificate) : Logged Outcome := do
  log .info "Certificate authentication failed: {}" [why.message]
  return .failed why certificate?

/-- Decides about the payload of a request. -/
def authenticate (v : Server) (session payload : Bytes) (now : UInt64) : Logged Outcome := do
  match Request.parse payload with
  | none =>
    log .debug "Not a valid publickey request" []
    return .notApplicable .notRequest
  | some r =>
    if !Certificate.isCertificate r.head.blob then
      log .trace "Public key is not a certificate [algorithm={}]" [r.head.algorithm]
      return .notApplicable .notCertificate
    match ← Certificate.decodeLogged r.head.blob with
    | .error e => fail (.undecodable e) none
    | .ok c =>
      match ← v.vet r.head c now with
      | .error why => fail why (some c)
      | .ok fingerprint =>
        if !r.head.isAuth then
          log .debug "Certificate acceptable [user={}, key id={}]" [r.head.user, c.keyId]
          return .succeeded true c
        match ← v.checkSignature r c (signatureMessage session (payload.take r.signedSize)) with
        | .error why => fail why (some c)
        | .ok () =>
          log .info "Certificate authentication succeeded [user={}, key id={}, serial={}, ca={}]"
            [r.head.user, c.keyId, Text.decimal c.serial.toNat, fingerprint]
          return .succeeded false c

end Server

end SshCert.Login

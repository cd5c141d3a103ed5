import SshCert.Algorithm.Name

/-
  Names of certificate algorithms.
  A certificate algorithm is the name of a key algorithm followed by `-cert-v` and a version.
  In a login request the key algorithm of an RSA certificate may be replaced by the name of a
  newer RSA signature; `requestName` builds such a name and `plainName` takes it apart.
-/

namespace SshCert

/-- What sets a certificate algorithm apart from a key algorithm. -/
def certificateMark : Bytes := ascii "-cert-v"

/-- Whether the name is that of a certificate algorithm. -/
def isCertificateName (name : Bytes) : Bool := Bytes.occurs certificateMark name

/-- The key algorithm in front of the certificate mark, or the whole name without one. -/
def plainName (name : Bytes) : Bytes :=
  match Bytes.splitAtFirst certificateMark name with
  | some (plain, _) => plain
  | none => name

/-- The families of keys that can be certified. -/
inductive Family
  | rsa
  | ecdsa
  | ed25519
  | dss
  deriving DecidableEq, Repr

namespace Family

/-- The name of the family. -/
def name : Family → Bytes
  | .rsa => ascii "rsa"
  | .ecdsa => ascii "ecdsa"
  | .ed25519 => ascii "ed25519"
  | .dss => ascii "dss"

/-- How the algorithm names of the family begin. -/
def stem : Family → Bytes
  | .rsa => ascii "ssh-rsa"
  | .ecdsa => ascii "ecdsa-sha2-nistp"
  | .ed25519 => ascii "ssh-ed25519"
  | .dss => ascii "ssh-dss"

/-- Every family. -/
def all : List Family := [.rsa, .ecdsa, .ed25519, .dss]

/-- The family of an algorithm, by the beginning of its name. -/
def ofAlgorithm? (algorithm : Bytes) : Option Family := all.find? (·.stem.isPrefixOf algorithm)

/-- How many strings the key material of the family has. -/
def fieldCount : Family → Nat
  | .rsa => 2
  | .ecdsa => 2
  | .ed25519 => 1
  | .dss => 4

end Family

/-- The algorithm a login request names for a certificate and a signature algorithm. -/
def requestName (certificate signature : Bytes) : Bytes :=
  if (ascii "ssh-rsa-cert-v").isPrefixOf certificate
      && (ascii "rsa-sha2-").isPrefixOf signature then
    signature ++ certificate.drop (ascii "ssh-rsa").length
  else certificate

/-- The signature algorithm that a request algorithm stands for. -/
def signatureName (request : Bytes) : Bytes := plainName request

/-- Whether a request algorithm may be used with a certificate algorithm. -/
def requestNameFits (request certificate : Bytes) : Bool :=
  request == certificate || requestName certificate (signatureName request) == request

end SshCert

import SshCert.Suite.Basic

/-
  Keys given as bare values together with a type, without a blob or a file around them.
-/

namespace SshCert.Suite

/-- The values that a key of any type may need. -/
structure Material where
  /-- The Ed25519 key or the point. -/
  point? : Option Bytes := none
  /-- The Ed25519 seed or the scalar. -/
  secret : Bytes := []
  e : Bytes := []
  n : Bytes := []
  d : Bytes := []
  p : Bytes := []
  q : Bytes := []
  iqmp : Bytes := []
  deriving DecidableEq, Repr

/-- The point, empty when it is not given. -/
def Material.point (m : Material) : Bytes := m.point?.getD []

/-- The public key of the type with the values. -/
def publicFrom (s : Suite) (type : Option KeyType) (m : Material) : Logged (Option PublicKey) :=
  match type with
  | some .ed25519 => s.admitPublic (.ed25519 m.point)
  | some .rsa => s.admitPublic (.rsa m.e m.n)
  | some (.ecdsa c) => s.admitPublic (.ecdsa c m.point)
  | other => do
    log .error "Unsupported public key type: {}" [KeyType.label other]
    return none

/-- The private key of the type with the values. An Ed25519 key that is not given is derived from
a seed of the right size. -/
def privateFrom (s : Suite) (type : Option KeyType) (m : Material) : Logged (Option PrivateKey) :=
  match type with
  | some .ed25519 =>
    let derived := if m.secret.length = ed25519KeySize then s.ed25519Public m.secret else []
    s.admitPrivate (.ed25519 m.secret (m.point?.getD derived))
  | some .rsa => s.admitPrivate (.rsa m.e m.n m.d m.p m.q m.iqmp)
  | some (.ecdsa c) => s.admitPrivate (.ecdsa c m.point m.secret)
  | other => do
    log .error "Unsupported private key type: {}" [KeyType.label other]
    return none

end SshCert.Suite

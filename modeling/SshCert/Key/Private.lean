import SshCert.Key.Public

/-
  Private keys: their values and the public half of those.
-/

namespace SshCert

/-- The values of a private key. -/
inductive PrivateKey
  /-- The seed and the public key that is hashed with it. -/
  | ed25519 (seed key : Bytes)
  /-- Both exponents, the modulus, its primes, and the inverse of the second modulo the first. -/
  | rsa (e n d p q iqmp : Bytes)
  | ecdsa (c : Curve) (point scalar : Bytes)
  deriving DecidableEq, Repr

namespace PrivateKey

/-- The type of the key. -/
def type : PrivateKey → KeyType
  | .ed25519 _ _ => .ed25519
  | .rsa _ _ _ _ _ _ => .rsa
  | .ecdsa c _ _ => .ecdsa c

/-- The values of the public half. -/
def publicHalf : PrivateKey → PublicKey
  | .ed25519 _ key => .ed25519 key
  | .rsa e n _ _ _ _ => .rsa (Bytes.dropZeros e) (Bytes.dropZeros n)
  | .ecdsa c point _ => .ecdsa c point

theorem type_publicHalf (k : PrivateKey) : k.publicHalf.type = k.type := by
  cases k <;> rfl

end PrivateKey

end SshCert

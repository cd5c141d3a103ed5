import SshCert.Digest.Basic
import SshCert.Key.File
import SshCert.Primitive.Ecdsa
import SshCert.Primitive.Ed25519
import SshCert.Primitive.Rsa
import SshCert.Suite.Basic

/-
  The suite that computes: RSA with PKCS #1 padding, ECDSA and Ed25519.
-/

namespace SshCert.Suite

open Primitive

/-- The numbers of an RSA private key. -/
def rsaNumbers (e n d p q iqmp : Bytes) : Rsa.Private where
  e := Bytes.toNat e
  n := Bytes.toNat n
  d := Bytes.toNat d
  p := Bytes.toNat p
  q := Bytes.toNat q
  iqmp := Bytes.toNat iqmp

/-- Whether the values are a public key: a number that may be a modulus, a point of the curve, or
any Ed25519 key of the right size. -/
def standardAcceptsPublic : PublicKey → Bool
  | .ed25519 key => key.length == ed25519KeySize
  | .rsa _ n => Rsa.isModulus (Bytes.toNat n)
  | .ecdsa c point => (Ecdsa.point? c point).isSome

/-- Whether the values are a private key. The point of an ECDSA key only has to look like one. -/
def standardAcceptsPrivate : PrivateKey → Bool
  | .ed25519 seed key => seed.length == ed25519KeySize && key.length == ed25519KeySize
  | .rsa e n d p q iqmp => (rsaNumbers e n d p q iqmp).isValid
  | .ecdsa c point scalar => Ecdsa.isPointForm c point && Ecdsa.isScalar c scalar

/-- Makes a private key and says whether it is one, `none` where making it divides by zero. -/
def standardMakes? : PrivateKey → Option Bool
  | .rsa e n d p q iqmp => do
    let numbers := rsaNumbers e n d p q iqmp
    let _ ← numbers.exponents?
    return numbers.isValid
  | k => some (standardAcceptsPrivate k)

/-- Whether a raw signature is one of the message. -/
def standardVerify (k : PublicKey) (t : SignatureType) (message signature : Bytes) : Bool :=
  k.type.makes t &&
    match k, t.hash? with
    | .ed25519 key, _ => Ed25519.verify key message signature
    | .rsa e n, some h => Rsa.verify (Bytes.toNat e) (Bytes.toNat n) h (h.digest message) signature
    | .ecdsa c point, some h => Ecdsa.verify c point (h.digest message) signature
    | _, none => false

/-- A raw signature of the message. -/
def standardSign (k : PrivateKey) (t : SignatureType) (message : Bytes) (random : RandomSource) :
    Option Bytes :=
  match k, t.hash? with
  | .ed25519 seed key, _ => some (Ed25519.sign key seed message)
  | .rsa e n d p q iqmp, some h =>
    (rsaNumbers e n d p q iqmp).sign h (h.digest message) random
  | .ecdsa c _ scalar, some h => Ecdsa.sign c scalar (h.digest message) random
  | _, none => none

/-- The suite that computes. -/
def standard : Suite where
  digest h portions := h.digest portions.flatten
  acceptsPublic := standardAcceptsPublic
  acceptsPrivate := standardAcceptsPrivate
  verify := standardVerify
  sign := standardSign
  ed25519Public := Ed25519.publicKey

/-- Loads a key file, `none` where making the key in it divides by zero. -/
def loadStandard? (text : Bytes) : Option (Logged LoadedKey) :=
  match KeyFile.parse text with
  | .error _ => some (standard.loadPrivate text)
  | .ok (k, _) => (standardMakes? k).map fun _ => standard.loadPrivate text

end SshCert.Suite

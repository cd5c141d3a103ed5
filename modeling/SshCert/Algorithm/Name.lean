import SshCert.Bytes

/-
  The names of keys, signatures and hashes, and which of them fit together.
  Every kind of algorithm has a `name` and an `ofName?` that recognises exactly those names.
  An algorithm that is not known is `none` and is printed as `unknown`.
-/

namespace SshCert

/-- The name of an algorithm that is not known. -/
def unknownName : Bytes := ascii "unknown"

/-! ## Curves -/

/-- The curves of ECDSA keys. -/
inductive Curve
  | p256
  | p384
  | p521
  deriving DecidableEq, Repr

namespace Curve

/-- The curve's identifier in key blobs. -/
def name : Curve → Bytes
  | .p256 => ascii "nistp256"
  | .p384 => ascii "nistp384"
  | .p521 => ascii "nistp521"

/-- How many bytes a coordinate of a point has. -/
def coordinateSize : Curve → Nat
  | .p256 => 32
  | .p384 => 48
  | .p521 => 66

/-- How many bytes an uncompressed point has: its form, then both coordinates. -/
def pointSize (c : Curve) : Nat := 2 * c.coordinateSize + 1

end Curve

/-- How many bytes an Ed25519 key or seed has. -/
def ed25519KeySize : Nat := 32

/-! ## Keys -/

/-- The types of keys. -/
inductive KeyType
  | rsa
  | dss
  | ed25519
  | ecdsa (c : Curve)
  deriving DecidableEq, Repr

namespace KeyType

/-- The name of the type in key blobs. -/
def name : KeyType → Bytes
  | .rsa => ascii "ssh-rsa"
  | .dss => ascii "ssh-dss"
  | .ed25519 => ascii "ssh-ed25519"
  | .ecdsa .p256 => ascii "ecdsa-sha2-nistp256"
  | .ecdsa .p384 => ascii "ecdsa-sha2-nistp384"
  | .ecdsa .p521 => ascii "ecdsa-sha2-nistp521"

/-- Every key type. -/
def all : List KeyType := [.rsa, .dss, .ed25519, .ecdsa .p256, .ecdsa .p384, .ecdsa .p521]

/-- The type with the name. -/
def ofName? (b : Bytes) : Option KeyType := all.find? (·.name == b)

/-- The name to print for a type that may not be known. -/
def label (t : Option KeyType) : Bytes := t.elim unknownName name

/-- The curve of an ECDSA type. -/
def curve? : KeyType → Option Curve
  | .ecdsa c => some c
  | _ => none

end KeyType

/-! ## Hashes -/

/-- The hash functions. -/
inductive HashType
  | sha1
  | sha256
  | sha384
  | sha512
  deriving DecidableEq, Repr

namespace HashType

/-- The name of the hash. -/
def name : HashType → Bytes
  | .sha1 => ascii "sha1"
  | .sha256 => ascii "sha2-256"
  | .sha384 => ascii "sha2-384"
  | .sha512 => ascii "sha2-512"

/-- Every hash. -/
def all : List HashType := [.sha1, .sha256, .sha384, .sha512]

/-- The hash with the name. -/
def ofName? (b : Bytes) : Option HashType := all.find? (·.name == b)

/-- The name to print for a hash that may not be known. -/
def label (t : Option HashType) : Bytes := t.elim unknownName name

/-- How many bytes a digest has. -/
def size : HashType → Nat
  | .sha1 => 20
  | .sha256 => 32
  | .sha384 => 48
  | .sha512 => 64

end HashType

/-! ## Signatures -/

/-- The signature algorithms. RSA keys have three of them. -/
inductive SignatureType
  | rsaSha1
  | rsaSha256
  | rsaSha512
  | dss
  | ed25519
  | ecdsa (c : Curve)
  deriving DecidableEq, Repr

namespace SignatureType

/-- The name of the algorithm in signature blobs. -/
def name : SignatureType → Bytes
  | .rsaSha1 => ascii "ssh-rsa"
  | .rsaSha256 => ascii "rsa-sha2-256"
  | .rsaSha512 => ascii "rsa-sha2-512"
  | .dss => ascii "ssh-dss"
  | .ed25519 => ascii "ssh-ed25519"
  | .ecdsa .p256 => ascii "ecdsa-sha2-nistp256"
  | .ecdsa .p384 => ascii "ecdsa-sha2-nistp384"
  | .ecdsa .p521 => ascii "ecdsa-sha2-nistp521"

/-- Every signature algorithm. -/
def all : List SignatureType :=
  [.rsaSha1, .rsaSha256, .rsaSha512, .dss, .ed25519, .ecdsa .p256, .ecdsa .p384, .ecdsa .p521]

/-- The algorithm with the name. -/
def ofName? (b : Bytes) : Option SignatureType := all.find? (·.name == b)

/-- The name to print for an algorithm that may not be known. -/
def label (t : Option SignatureType) : Bytes := t.elim unknownName name

/-- The type of the keys that make such signatures. -/
def keyType : SignatureType → KeyType
  | .rsaSha1 => .rsa
  | .rsaSha256 => .rsa
  | .rsaSha512 => .rsa
  | .dss => .dss
  | .ed25519 => .ed25519
  | .ecdsa c => .ecdsa c

/-- The hash of the message that is signed; Ed25519 hashes inside the algorithm. -/
def hash? : SignatureType → Option HashType
  | .rsaSha1 => some .sha1
  | .rsaSha256 => some .sha256
  | .rsaSha512 => some .sha512
  | .dss => some .sha1
  | .ed25519 => none
  | .ecdsa .p256 => some .sha256
  | .ecdsa .p384 => some .sha384
  | .ecdsa .p521 => some .sha512

end SignatureType

namespace KeyType

/-- The signature algorithm that has the same name as the key type. -/
def defaultSignature : KeyType → SignatureType
  | .rsa => .rsaSha1
  | .dss => .dss
  | .ed25519 => .ed25519
  | .ecdsa c => .ecdsa c

/-- Whether keys of the type make such signatures. -/
def makes (k : KeyType) (s : SignatureType) : Bool := s.keyType == k

/-- The signature algorithm that a hint selects for a key type: the one it names if it fits, the
default one for an empty hint. -/
def signatureFor? (k : KeyType) (hint : Bytes) : Option SignatureType :=
  if hint.isEmpty then some k.defaultSignature
  else (SignatureType.ofName? hint).filter k.makes

theorem name_defaultSignature (k : KeyType) : k.defaultSignature.name = k.name := by
  cases k with
  | ecdsa c => cases c <;> rfl
  | _ => rfl

theorem makes_defaultSignature (k : KeyType) : k.makes k.defaultSignature = true := by
  cases k with
  | ecdsa c => cases c <;> rfl
  | _ => rfl

end KeyType

end SshCert

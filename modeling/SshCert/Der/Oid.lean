import SshCert.Algorithm.Name
import SshCert.Der.Writer

/-
  The object identifiers of key algorithms, curves and hashes, as encoded arcs.
-/

namespace SshCert.Der

/-- RSA encryption, 1.2.840.113549.1.1.1. -/
def rsaEncryption : Bytes := [0x2a, 0x86, 0x48, 0x86, 0xf7, 0x0d, 0x01, 0x01, 0x01]

/-- Elliptic curve public keys, 1.2.840.10045.2.1. -/
def ecPublicKey : Bytes := [0x2a, 0x86, 0x48, 0xce, 0x3d, 0x02, 0x01]

/-- Ed25519, 1.3.101.112. -/
def ed25519 : Bytes := [0x2b, 0x65, 0x70]

/-- The named curves: 1.2.840.10045.3.1.7, 1.3.132.0.34 and 1.3.132.0.35. -/
def ofCurve : Curve → Bytes
  | .p256 => [0x2a, 0x86, 0x48, 0xce, 0x3d, 0x03, 0x01, 0x07]
  | .p384 => [0x2b, 0x81, 0x04, 0x00, 0x22]
  | .p521 => [0x2b, 0x81, 0x04, 0x00, 0x23]

/-- The hashes: 1.3.14.3.2.26 and 2.16.840.1.101.3.4.2 with 1, 2 and 3. -/
def ofHash : HashType → Bytes
  | .sha1 => [0x2b, 0x0e, 0x03, 0x02, 0x1a]
  | .sha256 => [0x60, 0x86, 0x48, 0x01, 0x65, 0x03, 0x04, 0x02, 0x01]
  | .sha384 => [0x60, 0x86, 0x48, 0x01, 0x65, 0x03, 0x04, 0x02, 0x02]
  | .sha512 => [0x60, 0x86, 0x48, 0x01, 0x65, 0x03, 0x04, 0x02, 0x03]

end SshCert.Der

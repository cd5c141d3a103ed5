import SshCert.Algorithm.Name
import SshCert.Digest.Sha1
import SshCert.Digest.Sha2

/-
  The digest of a message under each hash function.
-/

namespace SshCert

/-- The digest of a message. -/
def HashType.digest : HashType → Bytes → Bytes
  | .sha1 => Digest.Sha1.digest
  | .sha256 => Digest.Sha2.sha256
  | .sha384 => Digest.Sha2.sha384
  | .sha512 => Digest.Sha2.sha512

end SshCert

import SshCert.Key.File
import SshCert.Key.Signature

/-
  Identities: a public key, possibly with its private half, and a comment.
  An identity is only made of accepted keys. Its operations take an algorithm hint; an empty
  hint stands for the algorithm that has the same name as the type of the key.
-/

namespace SshCert

/-- A key that takes part in a login. -/
structure Identity where
  key : PublicKey
  private? : Option PrivateKey
  comment : Bytes
  deriving DecidableEq, Repr

namespace Identity

/-- The identity of a loaded private key, if its public half is accepted too. -/
def ofPrivate (s : Suite) (loaded : LoadedKey) : Logged (Option Identity) :=
  match loaded.key? with
  | none => return none
  | some secret => do
    let key? ← s.publicOf secret
    return key?.map fun key => ⟨key, some secret, loaded.comment⟩

/-- The identity of a public key, which can only verify. -/
def ofPublic (key? : Option PublicKey) (comment : Bytes) : Option Identity :=
  key?.map fun key => ⟨key, none, comment⟩

/-- Whether the identity can sign. -/
def canSign (i : Identity) : Bool := i.private?.isSome

/-- A signature blob of the message by the algorithm of the hint. -/
def sign (i : Identity) (s : Suite) (hint message : Bytes) (random : RandomSource) :
    Logged (Option Bytes) :=
  match i.private?, i.key.type.signatureFor? hint with
  | some secret, some t => s.signBlob secret t message random
  | _, _ => return none

/-- Whether the blob is a signature of the message; a hint must be its algorithm. -/
def verify (i : Identity) (s : Suite) (hint message blob : Bytes) : Bool :=
  (hint.isEmpty || (SignatureBlob.parse blob).any (·.algorithm == hint))
    && s.verifyBlob i.key message blob

end Identity

end SshCert

import SshCert.Journal.Line
import SshCert.Key.Private
import SshCert.Primitive.RandomSource

/-
  The cryptography that the library builds on, as a parameter.
  A suite digests messages, decides which values are keys, signs and verifies. Everything above
  it holds for any suite; `Suite.standard` is the one that computes. The functions here add the
  log lines that a refused key and a failed signature leave.
-/

namespace SshCert

/-- Digests, keys and signatures. -/
structure Suite where
  /-- The digest of a message that is given in portions. -/
  digest : HashType → List Bytes → Bytes
  /-- Whether the values are a public key. -/
  acceptsPublic : PublicKey → Bool
  /-- Whether the values are a private key. -/
  acceptsPrivate : PrivateKey → Bool
  /-- Whether a raw signature is one of the message. -/
  verify : PublicKey → SignatureType → (message signature : Bytes) → Bool
  /-- A raw signature of the message. Where the algorithm needs random bytes, the source gives
  them. -/
  sign : PrivateKey → SignatureType → (message : Bytes) → RandomSource → Option Bytes
  /-- The public key of an Ed25519 seed. -/
  ed25519Public : Bytes → Bytes

namespace Suite

/-- The hash with the name, or a line saying that there is none. -/
def hashNamed (name : Bytes) : Logged (Option HashType) :=
  match HashType.ofName? name with
  | some h => return some h
  | none => do
    log .error "Unsupported hash type: {}" [unknownName]
    return none

/-- The key if its values are accepted. -/
def admitPublic (s : Suite) (k : PublicKey) : Logged (Option PublicKey) :=
  if s.acceptsPublic k then return some k
  else do
    log .debug "Invalid {} public key" [k.type.name]
    return none

/-- The key if its values are accepted. -/
def admitPrivate (s : Suite) (k : PrivateKey) : Logged (Option PrivateKey) :=
  if s.acceptsPrivate k then return some k
  else do
    log .debug "Invalid {} private key" [k.type.name]
    return none

/-- The public half of a private key if its values are accepted. -/
def publicOf (s : Suite) (k : PrivateKey) : Logged (Option PublicKey) := s.admitPublic k.publicHalf

/-- A raw signature, if keys of the type make such signatures. -/
def signRaw (s : Suite) (k : PrivateKey) (t : SignatureType) (message : Bytes)
    (random : RandomSource) : Logged (Option Bytes) :=
  if k.type.makes t then
    match s.sign k t message random with
    | some raw => return some raw
    | none => do
      if k.type = .rsa then log .error "rsa signing failed" []
      return none
  else return none

/-- The public key in a blob. -/
def loadPublic (s : Suite) (blob : Bytes) : Logged (Option PublicKey) :=
  match PublicKey.parse blob with
  | .ok k => s.admitPublic k
  | .error e => do
    log .trace e.message.1 e.message.2
    return none

/-- The public key in the base64 of a blob. -/
def loadPublicText (s : Suite) (text : Bytes) : Logged (Option PublicKey) :=
  s.loadPublic ((Base64.decode text).getD [])

/-- The text of a fingerprint: the name of the hash and the base64 of the digest. -/
def fingerprintText (digest : Bytes) : Bytes := ascii "SHA256:" ++ Base64.encodeUnpadded digest

/-- The fingerprint of a key: its blob is hashed as it is written. -/
def fingerprint (s : Suite) (k : PublicKey) : Bytes :=
  fingerprintText (s.digest .sha256 (Wire.writeAll (⟨[]⟩ : Wire.Portions) k.values).list)

end Suite

end SshCert

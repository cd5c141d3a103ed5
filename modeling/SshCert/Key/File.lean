import SshCert.Algorithm.Certified
import SshCert.Suite.Basic
import SshCert.Text.Number

/-
  Private key files: armoured text around a header, the public key and the private key.
  Only files with a single key that is not encrypted are read. `parse` gives the values of the
  key and its comment or the cause of failure; `Suite.loadPrivate` also has the key accepted
  and logs what happened.
-/

namespace SshCert.KeyFile

/-- The label of the armour. -/
def label : Bytes := ascii "OPENSSH PRIVATE KEY"

/-- What the armoured data begins with; the last byte is zero. -/
def magic : Bytes := ascii "openssh-key-v1" ++ [0]

/-- The name of the cipher and key derivation of files that are not encrypted. -/
def noCipher : Bytes := ascii "none"

/-- Why a file does not hold a key. -/
inductive Error
  | unknownFormat
  | noEnd
  | noMagic
  | badHeader
  | encrypted (cipher kdf : Bytes)
  | keyCount (count : UInt32)
  | badData
  | checkMismatch
  | noType
  | unsupportedType (name : Bytes)
  | badFields (family : Family)
  deriving DecidableEq, Repr

/-- The log message for a cause and what fills its placeholders. -/
def Error.message : Error → String × List Bytes
  | .unknownFormat => ("unknown private key format", [])
  | .noEnd => ("Missing end of openssh private key", [])
  | .noMagic => ("Failed to find openssh magic string", [])
  | .badHeader => ("Invalid openssh private key header", [])
  | .encrypted cipher kdf =>
    ("Encrypted openssh private key not supported [cipher={}, kdf={}]", [cipher, kdf])
  | .keyCount count =>
    ("Expected single key in openssh private key [count={}]", [Text.decimal count.toNat])
  | .badData => ("Invalid openssh private key data", [])
  | .checkMismatch => ("Private key check integers do not match", [])
  | .noType => ("Failed to read private key type", [])
  | .unsupportedType name => ("Unsupported private key type [{}]", [name])
  | .badFields family => ("Invalid {} private key", [family.name])

/-! ## The armour -/

/-- Whether the text begins like a key file. -/
def isKeyFile (text : Bytes) : Bool := (Pem.beginMarker label).isPrefixOf text

/-- The lines of a text; a carriage return ends a line as well as a line feed. -/
def lines : Bytes → List Bytes
  | [] => [[]]
  | c :: r =>
    let others := lines r
    if c = 0x0a ∨ c = 0x0d then [] :: others else (c :: others.headD []) :: others.tail

/-- The lines between the markers put together; there must be a line with the end marker. -/
def body? (text : Bytes) : Option Bytes :=
  let (inside, outside) := (lines (text.drop (Pem.beginMarker label).length)).span
    fun l => !(Pem.endMarker label).isPrefixOf l
  if outside.isEmpty then none else some inside.flatten

/-! ## The data -/

/-- Takes a part of the data from the front of the bytes, or names the cause. -/
abbrev Decoder (α : Type) := StateT Bytes (Except Error) α

/-- Reads a part. -/
def part {α : Type} (cause : Error) (r : Wire.Reader α) : Decoder α := fun b =>
  match r b with
  | some result => .ok result
  | none => .error cause

/-- Fails for the cause unless the condition holds. -/
def ensure (cause : Error) (holds : Bool) : Decoder Unit :=
  if holds then pure () else throw cause

/-- The fields of an Ed25519 key: the key, then the seed alone or in front of the key. -/
def ed25519 : Decoder (PrivateKey × Bytes) := do
  let fields ← part (.badFields .ed25519) (Wire.strings 3)
  match fields with
  | [key, secret, comment] =>
    ensure (.badFields .ed25519) (key.length == ed25519KeySize
      && (secret.length == ed25519KeySize || secret.length == 2 * ed25519KeySize))
    return (.ed25519 (secret.take ed25519KeySize) key, comment)
  | _ => throw (.badFields .ed25519)

/-- The fields of an RSA key; numbers lose their leading zeros. -/
def rsa : Decoder (PrivateKey × Bytes) := do
  let number : Wire.Reader Bytes := Bytes.dropZeros <$> Wire.string
  part (.badFields .rsa) do
    let n ← number
    let e ← number
    let d ← number
    let iqmp ← number
    let p ← number
    let q ← number
    let comment ← Wire.string
    return (.rsa e n d p q iqmp, comment)

/-- The fields of an ECDSA key, which name its curve again. -/
def ecdsa (c : Curve) : Decoder (PrivateKey × Bytes) := do
  let fields ← part (.badFields .ecdsa) (Wire.strings 4)
  match fields with
  | [curve, point, scalar, comment] =>
    ensure (.badFields .ecdsa) (curve == c.name)
    return (.ecdsa c point (Bytes.dropZeros scalar), comment)
  | _ => throw (.badFields .ecdsa)

/-- The private section: two equal check numbers, the type of the key and its fields. -/
def privateSection : Decoder (PrivateKey × Bytes) := do
  let check1 ← part .checkMismatch Wire.u32
  let check2 ← part .checkMismatch Wire.u32
  ensure .checkMismatch (check1 == check2)
  let name ← part .noType Wire.string
  match KeyType.ofName? name with
  | some .ed25519 => ed25519
  | some .rsa => rsa
  | some (.ecdsa c) => ecdsa c
  | _ => throw (.unsupportedType name)

/-- The data of a file up to the private section, which it gives. -/
def container : Decoder Bytes := do
  let start ← part .noMagic (Wire.take magic.length)
  ensure .noMagic (start == magic)
  let cipher ← part .badHeader Wire.string
  let kdf ← part .badHeader Wire.string
  let _ ← part .badHeader Wire.string
  let count ← part .badHeader Wire.u32
  ensure (.encrypted cipher kdf) (cipher == noCipher && kdf == noCipher)
  ensure (.keyCount count) (count == 1)
  let _ ← part .badData Wire.string
  part .badData Wire.string

/-- The key in the data of a file and its comment. -/
def parseData (data : Bytes) : Except Error (PrivateKey × Bytes) := do
  let (secret, _) ← container data
  let (result, _) ← privateSection secret
  return result

/-- The key in a file and its comment. -/
def parse (text : Bytes) : Except Error (PrivateKey × Bytes) :=
  if !isKeyFile text then .error .unknownFormat
  else
    match body? text with
    | none => .error .noEnd
    | some body => parseData ((Base64.decode body).getD [])

end SshCert.KeyFile

namespace SshCert

/-- What a key file gave: a comment may be there without an accepted key. -/
structure LoadedKey where
  key? : Option PrivateKey := none
  comment : Bytes := []
  deriving DecidableEq, Repr

/-- The private key in a file. -/
def Suite.loadPrivate (s : Suite) (text : Bytes) : Logged LoadedKey :=
  match KeyFile.parse text with
  | .error e => do
    log .error e.message.1 e.message.2
    return {}
  | .ok (k, comment) => do
    let key? ← s.admitPrivate k
    if let some k := key? then
      log .debug "Loaded {} private key [{}]" [k.type.name, comment]
    return { key?, comment }

end SshCert

import SshCert.Suite.Basic

/-
  Signature blobs: the name of the algorithm and the signature itself.
  ECDSA signatures, raw two halves of fixed size, are a pair of integers inside the blob;
  `pairOfHalves` and `halvesOfPair?` change between the two forms. `signBlob` and `verifyBlob`
  sign and verify with blobs instead of raw signatures.
-/

namespace SshCert

/-- A signature blob. -/
structure SignatureBlob where
  algorithm : Bytes
  payload : Bytes
  deriving DecidableEq, Repr

namespace SignatureBlob

/-- The algorithm if it is known. -/
def type? (s : SignatureBlob) : Option SignatureType := SignatureType.ofName? s.algorithm

/-- The bytes of the blob. -/
def encode (s : SignatureBlob) : Bytes :=
  Wire.encodeAll [.string s.algorithm, .string s.payload]

/-- The blob in the bytes; what follows it is ignored. -/
def parse (b : Bytes) : Option SignatureBlob := do
  let (algorithm, rest) ← Wire.string b
  let (payload, _) ← Wire.string rest
  return { algorithm, payload }

/-- Both halves of a raw ECDSA signature as integers. -/
def pairOfHalves (raw : Bytes) : Bytes :=
  let size := raw.length / 2
  let r := Bytes.slice raw 0 size
  let s := Bytes.slice raw size size
  Wire.encodeAll [.mpint (.unsigned r), .mpint (.unsigned s)]

/-- Two integers as the halves of a raw ECDSA signature, if both fit. -/
def halvesOfPair? (c : Curve) (payload : Bytes) : Option Bytes := do
  let (first, rest) ← Wire.string payload
  let (second, _) ← Wire.string rest
  let r := Bytes.dropZeros first
  let s := Bytes.dropZeros second
  guard (r.length ≤ c.coordinateSize ∧ s.length ≤ c.coordinateSize)
  return Bytes.leftZeros c.coordinateSize r ++ Bytes.leftZeros c.coordinateSize s

/-- The blob of a raw signature. -/
def ofRaw (t : SignatureType) (raw : Bytes) : SignatureBlob where
  algorithm := t.name
  payload :=
    match t with
    | .ecdsa _ => pairOfHalves raw
    | _ => raw

/-- The raw signature of a key of the type that the blob holds. -/
def raw? (s : SignatureBlob) (k : KeyType) : Option Bytes :=
  match k with
  | .ecdsa c => halvesOfPair? c s.payload
  | _ => some s.payload

end SignatureBlob

namespace Suite

/-- A signature blob of the message, if keys of the type make such signatures. -/
def signBlob (s : Suite) (k : PrivateKey) (t : SignatureType) (message : Bytes)
    (random : RandomSource) : Logged (Option Bytes) := do
  let raw? ← s.signRaw k t message random
  return raw?.map fun raw => (SignatureBlob.ofRaw t raw).encode

/-- Whether the blob holds a signature of the message that the key could have made. -/
def verifyBlob (s : Suite) (k : PublicKey) (message blob : Bytes) : Bool :=
  match SignatureBlob.parse blob with
  | none => false
  | some sig =>
    match sig.type?, sig.raw? k.type with
    | some t, some raw => k.type.makes t && s.verify k t message raw
    | _, _ => false

end Suite

end SshCert

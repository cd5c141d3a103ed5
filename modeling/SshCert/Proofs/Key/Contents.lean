import SshCert.Proofs.Key.File
import SshCert.Proofs.Wire.Writing

/-
  The contents of key files.
  `KeyFile.Contents` has the parts that the data of a file are put together from, a private key
  as a row of fields of which its type makes some secret. `Contents.parseData_encode` says what is
  read from data that are put together so: whether there is a key, and which, is decided by
  the header and the check numbers before any field is looked at.
-/

namespace SshCert.KeyFile

open Wire

/-- Which fields of a private key of the type are secret. Keys of other types have no fields here,
whatever stands behind the name of their type. -/
def secretFields : Option KeyType → List Bool
  | some .ed25519 => [false, true, false]
  | some .rsa => [false, false, true, true, true, true, false]
  | some (.ecdsa _) => [false, false, true, false]
  | _ => []

/-- The parts of the data of a file. -/
structure Contents where
  cipher : Bytes
  kdf : Bytes
  kdfOptions : Bytes
  /-- How many keys there are. -/
  count : UInt32
  publicBlobs : List Bytes
  check₁ : UInt32
  check₂ : UInt32
  /-- The name of the type of the first key. -/
  typeName : Bytes
  /-- The fields of the first key. -/
  fields : List Bytes
  /-- What stands behind the fields in the private section. -/
  padding : Bytes
  /-- What stands behind the private section. -/
  trailing : Bytes
  deriving DecidableEq, Repr

namespace Contents

/-- The type of the first key. -/
def type? (c : Contents) : Option KeyType := KeyType.ofName? c.typeName

/-- The private section. -/
def privatePart (c : Contents) : Bytes :=
  Bytes.ofUInt32 c.check₁ ++ (Bytes.ofUInt32 c.check₂ ++ (encodeString c.typeName
    ++ (encodeStrings c.fields ++ c.padding)))

/-- The data of the file. -/
def encode (c : Contents) : Bytes :=
  magic ++ (encodeString c.cipher ++ (encodeString c.kdf ++ (encodeString c.kdfOptions
    ++ (Bytes.ofUInt32 c.count ++ (encodeStrings c.publicBlobs
      ++ (encodeString c.privatePart ++ c.trailing))))))

/-- The contents of a file with one key that is not encrypted. -/
def single (publicBlob typeName : Bytes) (fields : List Bytes) (padding : Bytes) : Contents where
  cipher := noCipher
  kdf := noCipher
  kdfOptions := []
  count := 1
  publicBlobs := [publicBlob]
  check₁ := 0
  check₂ := 0
  typeName
  fields
  padding
  trailing := []

theorem encode_ne_nil (c : Contents) : c.encode ≠ [] :=
  List.append_ne_nil_of_left_ne_nil (by decide) _

/-- Whether all parts can be written, a file with one key has one public key, and the private key
has as many fields as its type. -/
structure WellFramed (c : Contents) : Prop where
  cipher : Fits c.cipher
  kdf : Fits c.kdf
  kdfOptions : Fits c.kdfOptions
  publicBlobs : ∀ blob ∈ c.publicBlobs, Fits blob
  publicCount : c.count = 1 → c.publicBlobs.length = 1
  privatePart : Fits c.privatePart
  fieldCount : c.fields.length = (secretFields c.type?).length

theorem length_privatePart (c : Contents) :
    c.privatePart.length =
      12 + c.typeName.length + (encodeStrings c.fields).length + c.padding.length := by
  unfold privatePart
  simp only [List.length_append, Bytes.length_ofUInt32, length_encodeString]
  omega

/-- The name of the type is a part of the private section. -/
theorem WellFramed.fits_typeName {c : Contents} (h : c.WellFramed) : Fits c.typeName := by
  have hsection := h.privatePart
  have hlength := c.length_privatePart
  unfold Fits at hsection ⊢
  omega

/-- The fields are parts of the private section. -/
theorem WellFramed.fits_fields {c : Contents} (h : c.WellFramed) : ∀ f ∈ c.fields, Fits f := by
  have hsection := h.privatePart
  have hlength := c.length_privatePart
  have hfields : Fits (encodeStrings c.fields) := by
    unfold Fits at hsection ⊢
    omega
  exact fun f hf => fits_of_mem hf hfields

end Contents

/-! ## Keys in rows of fields -/

/-- What reads the fields of a key of the type with the name. -/
def fieldsReader (name : Bytes) : Option KeyType → Decoder (PrivateKey × Bytes)
  | some .ed25519 => ed25519
  | some .rsa => rsa
  | some (.ecdsa c) => ecdsa c
  | _ => throw (.unsupportedType name)

/-- The key in the fields of a key of the type with the name. -/
def keyIn (name : Bytes) : Option KeyType → List Bytes → Except Error (PrivateKey × Bytes)
  | some .ed25519, [key, secret, comment] =>
    if key.length == ed25519KeySize
        && (secret.length == ed25519KeySize || secret.length == 2 * ed25519KeySize) then
      .ok (.ed25519 (secret.take ed25519KeySize) key, comment)
    else .error (.badFields .ed25519)
  | some .rsa, [n, e, d, iqmp, p, q, comment] =>
    .ok (.rsa (Bytes.dropZeros e) (Bytes.dropZeros n) (Bytes.dropZeros d) (Bytes.dropZeros p)
      (Bytes.dropZeros q) (Bytes.dropZeros iqmp), comment)
  | some (.ecdsa c), [curve, point, scalar, comment] =>
    if curve == c.name then .ok (.ecdsa c point (Bytes.dropZeros scalar), comment)
    else .error (.badFields .ecdsa)
  | _, _ => .error (.unsupportedType name)

section Steps

variable {α β : Type} {b : Bytes}

theorem part_of_some {cause : Error} {r : Reader α} {p : α × Bytes} (h : r b = some p) :
    part cause r b = .ok p :=
  part_eq_ok_iff.mpr h

theorem bind_of_ok {x : Decoder α} {f : α → Decoder β} {a : α} {rest : Bytes}
    (h : x b = .ok (a, rest)) : (x >>= f) b = f a rest := by
  show (x b >>= fun q => f q.1 q.2) = f a rest
  rw [h]
  rfl

/-- A condition decides between the cause and going on. -/
theorem ensure_bind {cause : Error} {holds : Bool} {f : Unit → Decoder β} :
    (ensure cause holds >>= f) b = if holds then f () b else .error cause := by
  cases holds <;> rfl

end Steps

section Fields

variable {padding : Bytes}

theorem ed25519_encodeStrings {key secret comment : Bytes} (name : Bytes)
    (hfits : ∀ f ∈ [key, secret, comment], Fits f) :
    (ed25519 (encodeStrings [key, secret, comment] ++ padding)).map Prod.fst =
      keyIn name (some .ed25519) [key, secret, comment] := by
  have hread : strings 3 (encodeStrings [key, secret, comment] ++ padding) =
      some ([key, secret, comment], padding) := strings_eq_some_iff.mpr ⟨rfl, hfits, rfl⟩
  unfold ed25519
  rw [bind_of_ok (part_of_some hread)]
  dsimp only
  rw [ensure_bind, keyIn]
  split <;> rfl

theorem ecdsa_encodeStrings {curve point scalar comment : Bytes} (name : Bytes) (c : Curve)
    (hfits : ∀ f ∈ [curve, point, scalar, comment], Fits f) :
    (ecdsa c (encodeStrings [curve, point, scalar, comment] ++ padding)).map Prod.fst =
      keyIn name (some (.ecdsa c)) [curve, point, scalar, comment] := by
  have hread : strings 4 (encodeStrings [curve, point, scalar, comment] ++ padding) =
      some ([curve, point, scalar, comment], padding) := strings_eq_some_iff.mpr ⟨rfl, hfits, rfl⟩
  unfold ecdsa
  rw [bind_of_ok (part_of_some hread)]
  dsimp only
  rw [ensure_bind, keyIn]
  split <;> rfl

/-- A number is read back without its leading zeros. -/
theorem number_encodeString {v : Bytes} (h : Fits v) (rest : Bytes) :
    (Bytes.dropZeros <$> string : Reader Bytes) (encodeString v ++ rest) =
      some (Bytes.dropZeros v, rest) :=
  map_of_eq_some _ (string_encodeString h rest)

theorem rsa_encodeStrings {n e d iqmp p q comment : Bytes} (name : Bytes)
    (hfits : ∀ f ∈ [n, e, d, iqmp, p, q, comment], Fits f) :
    (rsa (encodeStrings [n, e, d, iqmp, p, q, comment] ++ padding)).map Prod.fst =
      keyIn name (some .rsa) [n, e, d, iqmp, p, q, comment] := by
  simp only [List.forall_mem_cons] at hfits
  obtain ⟨hn, he, hd, hiqmp, hp, hq, hcomment, -⟩ := hfits
  unfold rsa
  simp only [encodeStrings_cons, List.append_assoc]
  rw [part_of_some (bind_eq_some_iff.mpr ⟨_, _, number_encodeString hn _,
    bind_eq_some_iff.mpr ⟨_, _, number_encodeString he _,
    bind_eq_some_iff.mpr ⟨_, _, number_encodeString hd _,
    bind_eq_some_iff.mpr ⟨_, _, number_encodeString hiqmp _,
    bind_eq_some_iff.mpr ⟨_, _, number_encodeString hp _,
    bind_eq_some_iff.mpr ⟨_, _, number_encodeString hq _,
    bind_eq_some_iff.mpr ⟨_, _, string_encodeString hcomment _, rfl⟩⟩⟩⟩⟩⟩⟩)]
  rfl

end Fields

/-! ## What is read -/

namespace Contents

variable {c : Contents}

/-- The key in the private section, if the check numbers are equal. -/
def sectionKey (c : Contents) : Except Error (PrivateKey × Bytes) :=
  if c.check₁ == c.check₂ then keyIn c.typeName c.type? c.fields else .error .checkMismatch

/-- The key in the data, if there is one that is not encrypted. -/
def key (c : Contents) : Except Error (PrivateKey × Bytes) :=
  if c.cipher == noCipher && c.kdf == noCipher then
    if c.count == 1 then c.sectionKey else .error (.keyCount c.count)
  else .error (.encrypted c.cipher c.kdf)

theorem key_single (publicBlob typeName : Bytes) (fields : List Bytes) (padding : Bytes) :
    (single publicBlob typeName fields padding).key =
      keyIn typeName (KeyType.ofName? typeName) fields := rfl

/-- The reader of a type makes the key that `keyIn` says of as many fields as the type has. -/
theorem fieldsReader_encodeStrings {fields : List Bytes} (name : Bytes) {type? : Option KeyType}
    (hcount : fields.length = (secretFields type?).length) (hfits : ∀ f ∈ fields, Fits f)
    (padding : Bytes) :
    (fieldsReader name type? (encodeStrings fields ++ padding)).map Prod.fst =
      keyIn name type? fields := by
  match type?, fields, hcount with
  | some .ed25519, [_, _, _], _ => exact ed25519_encodeStrings name hfits
  | some .rsa, [_, _, _, _, _, _, _], _ => exact rsa_encodeStrings name hfits
  | some (.ecdsa c), [_, _, _, _], _ => exact ecdsa_encodeStrings name c hfits
  | some .dss, [], _ => rfl
  | none, [], _ => rfl

theorem WellFramed.privateSection_privatePart (h : c.WellFramed) :
    (privateSection c.privatePart).map Prod.fst = c.sectionKey := by
  unfold privateSection Contents.privatePart sectionKey
  rw [bind_of_ok (part_of_some (u32_eq_some_iff.mpr rfl)),
    bind_of_ok (part_of_some (u32_eq_some_iff.mpr rfl)), ensure_bind]
  split
  · rw [bind_of_ok (part_of_some (string_encodeString h.fits_typeName _))]
    exact fieldsReader_encodeStrings c.typeName h.fieldCount h.fits_fields c.padding
  · rfl

theorem WellFramed.container_encode (h : c.WellFramed) :
    container c.encode =
      if c.cipher == noCipher && c.kdf == noCipher then
        if c.count == 1 then .ok (c.privatePart, c.trailing) else .error (.keyCount c.count)
      else .error (.encrypted c.cipher c.kdf) := by
  unfold container encode
  rw [bind_of_ok (part_of_some (take_eq_some_iff.mpr ⟨rfl, rfl⟩)), beq_self_eq_true, ensure_bind,
    if_pos rfl,
    bind_of_ok (part_of_some (string_encodeString h.cipher _)),
    bind_of_ok (part_of_some (string_encodeString h.kdf _)),
    bind_of_ok (part_of_some (string_encodeString h.kdfOptions _)),
    bind_of_ok (part_of_some (u32_eq_some_iff.mpr rfl)), ensure_bind, ensure_bind]
  by_cases hcount : c.count = 1
  · obtain ⟨blob, hblob⟩ := List.length_eq_one_iff.mp (h.publicCount hcount)
    have hfits : Fits blob := h.publicBlobs blob (hblob ▸ List.mem_singleton_self blob)
    rw [hblob, encodeStrings_cons, encodeStrings_nil, List.append_nil,
      bind_of_ok (part_of_some (string_encodeString hfits _)),
      part_of_some (string_encodeString h.privatePart _)]
  · rw [if_neg (mt beq_iff_eq.mp hcount), if_neg (mt beq_iff_eq.mp hcount)]

end Contents

theorem parseData_eq (data : Bytes) :
    parseData data =
      (container data).bind fun inner => (privateSection inner.1).map Prod.fst := by
  unfold parseData
  cases container data with
  | error e => rfl
  | ok inner => cases privateSection inner.1 <;> rfl

/-- What is read from data that are put together from well-framed parts. -/
theorem Contents.WellFramed.parseData_encode {c : Contents} (h : c.WellFramed) :
    parseData c.encode = c.key := by
  rw [parseData_eq, h.container_encode]
  unfold Contents.key
  split
  · split
    · exact h.privateSection_privatePart
    · rfl
  · rfl

end SshCert.KeyFile

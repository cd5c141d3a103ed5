import SshCert.Proofs.Certificate.Steps

/-
  Certificates as they stand on the wire.
  A `Layout` holds the fields in front of the signature in the order and the number in which they
  were written, so that it can be written again byte for byte. It is taken field by field
  (`Layout.takes_read`), and `Layout.read_eq_ok_iff` says that reading takes exactly its bytes. A
  certificate is decoded from a layout, a signature and anything behind them (`decode_eq_ok_iff`).
  Layouts are told apart by their bytes, whatever follows (`Layout.encode_append_inj`).
-/

namespace SshCert.Certificate

open Wire

/-! ## Options in the order in which they stand -/

/-- The options in a field, as they stand. -/
def optionPairs? (b : Bytes) : Option (List (Bytes × Bytes)) := (allStrings b).bind pairs?

theorem options?_eq (b : Bytes) : options? b = (optionPairs? b).map OptionMap.ofList := rfl

/-- Names and values in turn. -/
def pairStrings (pairs : List (Bytes × Bytes)) : List Bytes := pairs.flatMap fun e => [e.1, e.2]

@[simp] theorem pairStrings_cons (e : Bytes × Bytes) (pairs : List (Bytes × Bytes)) :
    pairStrings (e :: pairs) = e.1 :: e.2 :: pairStrings pairs := rfl

/-- Options written one after another. -/
def encodePairs (pairs : List (Bytes × Bytes)) : Bytes := encodeStrings (pairStrings pairs)

theorem pairs?_eq_some_iff {vs : List Bytes} {pairs : List (Bytes × Bytes)} :
    pairs? vs = some pairs ↔ vs = pairStrings pairs := by
  fun_induction pairs? vs generalizing pairs with
  | case1 =>
    cases pairs with
    | nil => exact ⟨fun _ => rfl, fun _ => rfl⟩
    | cons e r => exact ⟨nofun, nofun⟩
  | case2 v =>
    cases pairs with
    | nil => exact ⟨nofun, nofun⟩
    | cons e r =>
      constructor
      · intro h
        cases h
      · intro h
        cases congrArg (List.length ∘ List.tail) h
  | case3 name value r ih =>
    rw [Option.map_eq_some_iff]
    constructor
    · intro h
      obtain ⟨others, hothers, rfl⟩ := h
      rw [ih.mp hothers]
      rfl
    · intro h
      cases pairs with
      | nil => cases h
      | cons e others =>
        simp only [pairStrings_cons, List.cons.injEq] at h
        obtain ⟨rfl, rfl, h⟩ := h
        exact ⟨others, ih.mpr h, rfl⟩

theorem optionPairs?_eq_some_iff {b : Bytes} {pairs : List (Bytes × Bytes)} :
    optionPairs? b = some pairs ↔
      (∀ v ∈ pairStrings pairs, Fits v) ∧ b = encodePairs pairs := by
  unfold optionPairs?
  rw [Option.bind_eq_some_iff]
  constructor
  · intro h
    obtain ⟨vs, hvs, hpairs⟩ := h
    rw [← pairs?_eq_some_iff.mp hpairs, encodePairs, ← pairs?_eq_some_iff.mp hpairs]
    exact allStrings_eq_some_iff.mp hvs
  · intro h
    exact ⟨pairStrings pairs, allStrings_eq_some_iff.mpr h, pairs?_eq_some_iff.mpr rfl⟩

/-! ## Layouts -/

/-- The fields of a certificate in front of the signature, as they stand on the wire. -/
structure Layout where
  algorithm : Bytes
  nonce : Bytes
  /-- The parts of the subject's key. -/
  key : List Bytes
  serial : UInt64
  typeCode : UInt32
  keyId : Bytes
  principals : List Bytes
  validAfter : UInt64
  validBefore : UInt64
  criticalOptions : List (Bytes × Bytes)
  extensions : List (Bytes × Bytes)
  reserved : Bytes
  signatureKey : Bytes
  deriving DecidableEq, Repr

/-- The fields that the authority signs, in the order in which they stand. -/
def Field.signed : List Field :=
  [.algorithm, .nonce, .publicKey, .serial, .type, .keyId, .principals, .validAfter, .validBefore,
    .criticalOptions, .extensions, .reserved, .signatureKey]

namespace Layout

/-- The fields in the order in which they stand. -/
def fields (l : Layout) : List Value :=
  [.string l.algorithm,
   .string l.nonce,
   .bytes (encodeStrings l.key),
   .u64 l.serial,
   .u32 l.typeCode,
   .string l.keyId,
   .string (encodeStrings l.principals),
   .u64 l.validAfter,
   .u64 l.validBefore,
   .string (encodePairs l.criticalOptions),
   .string (encodePairs l.extensions),
   .string l.reserved,
   .string l.signatureKey]

/-- The bytes of the fields. -/
def encode (l : Layout) : Bytes := encodeAll l.fields

/-- The bytes of every field, with a signature behind the layout. -/
def portion (l : Layout) (signature : Bytes) : Field → Bytes
  | .algorithm => encodeString l.algorithm
  | .nonce => encodeString l.nonce
  | .publicKey => encodeStrings l.key
  | .serial => Bytes.ofUInt64 l.serial
  | .type => Bytes.ofUInt32 l.typeCode
  | .keyId => encodeString l.keyId
  | .principals => encodeString (encodeStrings l.principals)
  | .validAfter => Bytes.ofUInt64 l.validAfter
  | .validBefore => Bytes.ofUInt64 l.validBefore
  | .criticalOptions => encodeString (encodePairs l.criticalOptions)
  | .extensions => encodeString (encodePairs l.extensions)
  | .reserved => encodeString l.reserved
  | .signatureKey => encodeString l.signatureKey
  | .signature => encodeString signature

/-- The algorithm is that of a family, the key has the parts of the family, and the length of
every field can be written. -/
structure WellFormed (l : Layout) : Prop where
  family : ∃ f, Family.ofAlgorithm? l.algorithm = some f ∧ l.key.length = f.fieldCount
  algorithm : Fits l.algorithm
  nonce : Fits l.nonce
  key : ∀ part ∈ l.key, Fits part
  keyId : Fits l.keyId
  principals : Fits (encodeStrings l.principals)
  criticalOptions : Fits (encodePairs l.criticalOptions)
  extensions : Fits (encodePairs l.extensions)
  reserved : Fits l.reserved
  signatureKey : Fits l.signatureKey

/-- The certificate that the fields and a signature make up. -/
def certificate (l : Layout) (signature : Bytes) : Certificate where
  algorithm := l.algorithm
  nonce := l.nonce
  keyMaterial := encodeStrings l.key
  serial := l.serial
  type := CertificateType.ofCode l.typeCode
  typeCode := l.typeCode
  keyId := l.keyId
  principals := l.principals
  validAfter := l.validAfter
  validBefore := l.validBefore
  criticalOptions := OptionMap.ofList l.criticalOptions
  extensions := OptionMap.ofList l.extensions
  reserved := l.reserved
  signatureKey := l.signatureKey
  signature := signature

/-- Reads the fields in front of the signature. -/
def read : Decoder Layout := do
  let algorithm ← field .algorithm Wire.string
  let family ← require (.unsupportedAlgorithm algorithm) (Family.ofAlgorithm? algorithm)
  let nonce ← field .nonce Wire.string
  let key ← field .publicKey (Wire.strings family.fieldCount)
  let serial ← field .serial Wire.u64
  let typeCode ← field .type Wire.u32
  let keyId ← field .keyId Wire.string
  let names ← field .principals Wire.string
  let principals ← require (.truncatedEntry .principal) (Wire.allStrings names)
  let validAfter ← field .validAfter Wire.u64
  let validBefore ← field .validBefore Wire.u64
  let critical ← field .criticalOptions Wire.string
  let criticalOptions ← require (.truncatedEntry .criticalOption) (optionPairs? critical)
  let other ← field .extensions Wire.string
  let extensions ← require (.truncatedEntry .extension) (optionPairs? other)
  let reserved ← field .reserved Wire.string
  let signatureKey ← field .signatureKey Wire.string
  return {
    algorithm, nonce, key, serial, typeCode, keyId, principals
    validAfter, validBefore, criticalOptions, extensions, reserved, signatureKey }

theorem encode_append (l : Layout) (rest : Bytes) :
    l.encode ++ rest =
      encodeString l.algorithm ++ (encodeString l.nonce ++ (encodeStrings l.key
        ++ (Bytes.ofUInt64 l.serial ++ (Bytes.ofUInt32 l.typeCode ++ (encodeString l.keyId
        ++ (encodeString (encodeStrings l.principals) ++ (Bytes.ofUInt64 l.validAfter
        ++ (Bytes.ofUInt64 l.validBefore ++ (encodeString (encodePairs l.criticalOptions)
        ++ (encodeString (encodePairs l.extensions) ++ (encodeString l.reserved
        ++ (encodeString l.signatureKey ++ rest)))))))))))) := by
  simp [encode, fields]

/-- What is read is well formed, and it is written as the bytes that were read. -/
theorem wellFormed_of_read {b rest : Bytes} {l : Layout} (h : read b = .ok (l, rest)) :
    l.WellFormed ∧ b = l.encode ++ rest := by
  unfold read at h
  obtain ⟨algorithm, b₁, halgorithm, h⟩ := bind_eq_ok_iff.mp h
  obtain ⟨family, b₂, hfamily, h⟩ := bind_eq_ok_iff.mp h
  obtain ⟨nonce, b₃, hnonce, h⟩ := bind_eq_ok_iff.mp h
  obtain ⟨key, b₄, hkey, h⟩ := bind_eq_ok_iff.mp h
  obtain ⟨serial, b₅, hserial, h⟩ := bind_eq_ok_iff.mp h
  obtain ⟨typeCode, b₆, htype, h⟩ := bind_eq_ok_iff.mp h
  obtain ⟨keyId, b₇, hkeyId, h⟩ := bind_eq_ok_iff.mp h
  obtain ⟨names, b₈, hnames, h⟩ := bind_eq_ok_iff.mp h
  obtain ⟨principals, b₉, hprincipals, h⟩ := bind_eq_ok_iff.mp h
  obtain ⟨validAfter, b₁₀, hafter, h⟩ := bind_eq_ok_iff.mp h
  obtain ⟨validBefore, b₁₁, hbefore, h⟩ := bind_eq_ok_iff.mp h
  obtain ⟨critical, b₁₂, hcritical, h⟩ := bind_eq_ok_iff.mp h
  obtain ⟨criticalOptions, b₁₃, hcriticalOptions, h⟩ := bind_eq_ok_iff.mp h
  obtain ⟨other, b₁₄, hother, h⟩ := bind_eq_ok_iff.mp h
  obtain ⟨extensions, b₁₅, hextensions, h⟩ := bind_eq_ok_iff.mp h
  obtain ⟨reserved, b₁₆, hreserved, h⟩ := bind_eq_ok_iff.mp h
  obtain ⟨signatureKey, b₁₇, hsignatureKey, h⟩ := bind_eq_ok_iff.mp h
  cases pure_eq_ok_iff.mp h
  obtain ⟨f, hf, ⟨⟩⟩ := require_eq_ok_iff.mp hfamily
  obtain ⟨ps, hps, ⟨⟩⟩ := require_eq_ok_iff.mp hprincipals
  obtain ⟨cs, hcs, ⟨⟩⟩ := require_eq_ok_iff.mp hcriticalOptions
  obtain ⟨es, hes, ⟨⟩⟩ := require_eq_ok_iff.mp hextensions
  rw [field_eq_ok_iff, string_eq_some_iff] at halgorithm hnonce hkeyId hnames
  rw [field_eq_ok_iff, string_eq_some_iff] at hcritical hother hreserved hsignatureKey
  rw [field_eq_ok_iff, u64_eq_some_iff] at hserial hafter hbefore
  rw [field_eq_ok_iff, u32_eq_some_iff] at htype
  rw [field_eq_ok_iff, strings_eq_some_iff] at hkey
  rw [allStrings_eq_some_iff] at hps
  rw [optionPairs?_eq_some_iff] at hcs hes
  -- the nested fields are the encodings of their entries
  obtain ⟨-, rfl⟩ := hps
  obtain ⟨-, rfl⟩ := hcs
  obtain ⟨-, rfl⟩ := hes
  refine ⟨⟨⟨family, hf, hkey.1⟩, halgorithm.1, hnonce.1, hkey.2.1, hkeyId.1, hnames.1,
    hcritical.1, hother.1, hreserved.1, hsignatureKey.1⟩, ?_⟩
  rw [encode_append, halgorithm.2, hnonce.2, hkey.2.2, hserial, htype, hkeyId.2, hnames.2,
    hafter, hbefore, hcritical.2, hother.2, hreserved.2, hsignatureKey.2]

theorem flatMap_portion_signed (l : Layout) (signature : Bytes) :
    Field.signed.flatMap (l.portion signature) = l.encode := by
  have h := l.encode_append []
  simp only [List.append_nil] at h
  simp [Field.signed, portion, h]

/-- A well formed layout is taken field by field. -/
theorem takes_read {l : Layout} (hl : l.WellFormed) (signature : Bytes) :
    Takes read (l.portion signature) Field.signed l := by
  obtain ⟨f, hf, hcount⟩ := hl.family
  have hprincipals : allStrings (encodeStrings l.principals) = some l.principals :=
    allStrings_encodeStrings fun v hv => fits_of_mem hv hl.principals
  have hcritical : optionPairs? (encodePairs l.criticalOptions) = some l.criticalOptions :=
    optionPairs?_eq_some_iff.mpr ⟨fun v hv => fits_of_mem hv hl.criticalOptions, rfl⟩
  have hextensions : optionPairs? (encodePairs l.extensions) = some l.extensions :=
    optionPairs?_eq_some_iff.mpr ⟨fun v hv => fits_of_mem hv hl.extensions, rfl⟩
  refine Takes.field_bind exact_string hl.algorithm rfl ?_
  refine Takes.require_bind hf ?_
  refine Takes.field_bind exact_string hl.nonce rfl ?_
  refine Takes.field_bind (exact_strings _) ⟨hcount, hl.key⟩ rfl ?_
  refine Takes.field_bind exact_u64 trivial rfl ?_
  refine Takes.field_bind exact_u32 trivial rfl ?_
  refine Takes.field_bind exact_string hl.keyId rfl ?_
  refine Takes.field_bind exact_string hl.principals rfl ?_
  refine Takes.require_bind hprincipals ?_
  refine Takes.field_bind exact_u64 trivial rfl ?_
  refine Takes.field_bind exact_u64 trivial rfl ?_
  refine Takes.field_bind exact_string hl.criticalOptions rfl ?_
  refine Takes.require_bind hcritical ?_
  refine Takes.field_bind exact_string hl.extensions rfl ?_
  refine Takes.require_bind hextensions ?_
  refine Takes.field_bind exact_string hl.reserved rfl ?_
  exact Takes.field_bind exact_string hl.signatureKey rfl (takes_pure _ _)

/-- A well formed layout is read back in front of anything. -/
theorem read_encode_append {l : Layout} (hl : l.WellFormed) (rest : Bytes) :
    read (l.encode ++ rest) = .ok (l, rest) := by
  rw [← l.flatMap_portion_signed []]
  exact (takes_read hl []).whole rest

/-- A layout is read from exactly the bytes that it is written as, whatever follows them. -/
theorem read_eq_ok_iff {b rest : Bytes} {l : Layout} :
    read b = .ok (l, rest) ↔ l.WellFormed ∧ b = l.encode ++ rest := by
  constructor
  · exact wellFormed_of_read
  · intro h
    rw [h.2]
    exact read_encode_append h.1 rest

/-- The fields in front of the signature are known from any bytes that begin with them. -/
theorem encode_append_inj {l₁ l₂ : Layout} {r₁ r₂ : Bytes} (h₁ : l₁.WellFormed)
    (h₂ : l₂.WellFormed) (h : l₁.encode ++ r₁ = l₂.encode ++ r₂) : l₁ = l₂ ∧ r₁ = r₂ := by
  have hread := read_encode_append h₁ r₁
  rw [h, read_encode_append h₂ r₂] at hread
  cases hread
  exact ⟨rfl, rfl⟩

end Layout

/-- Reading a certificate is reading its layout and then the signature. -/
theorem read_eq_layout : read = (do
    let l ← Layout.read
    let signature ← field .signature Wire.string
    return l.certificate signature) := by
  simp only [read, Layout.read, options?_eq, require_map_bind, bind_assoc, pure_bind]
  rfl

theorem decode_eq_ok_iff_read {b : Bytes} {c : Certificate} :
    decode b = .ok c ↔ ∃ tail, read b = .ok (c, tail) := by
  unfold decode
  cases read b with
  | error e => exact ⟨nofun, nofun⟩
  | ok p =>
    constructor
    · intro h
      rw [← Except.ok.inj h]
      exact ⟨p.2, rfl⟩
    · intro h
      obtain ⟨tail, h⟩ := h
      rw [Except.ok.inj h]
      rfl

/-- A certificate is decoded from its layout, its signature and anything behind them. -/
theorem decode_eq_ok_iff {b : Bytes} {c : Certificate} :
    decode b = .ok c ↔ ∃ (l : Layout) (signature tail : Bytes), l.WellFormed ∧ Fits signature ∧
      c = l.certificate signature ∧ b = l.encode ++ (encodeString signature ++ tail) := by
  rw [decode_eq_ok_iff_read, read_eq_layout]
  constructor
  · intro h
    obtain ⟨tail, hread⟩ := h
    obtain ⟨l, b', hl, hread⟩ := bind_eq_ok_iff.mp hread
    obtain ⟨signature, r, hsignature, hread⟩ := bind_eq_ok_iff.mp hread
    cases pure_eq_ok_iff.mp hread
    obtain ⟨hwf, rfl⟩ := Layout.read_eq_ok_iff.mp hl
    rw [field_eq_ok_iff, string_eq_some_iff] at hsignature
    obtain ⟨hfits, rfl⟩ := hsignature
    exact ⟨l, signature, tail, hwf, hfits, rfl, rfl⟩
  · intro h
    obtain ⟨l, signature, tail, hwf, hfits, rfl, rfl⟩ := h
    refine ⟨tail, ?_⟩
    refine bind_eq_ok_iff.mpr ⟨l, _, Layout.read_eq_ok_iff.mpr ⟨hwf, rfl⟩, ?_⟩
    exact bind_eq_ok_iff.mpr ⟨signature, tail, readsString hfits, rfl⟩

/-! ## Fields that were read -/

theorem fits_algorithm {data : Bytes} {c : Certificate} (hdecode : decode data = .ok c) :
    Fits c.algorithm := by
  obtain ⟨l, signature, tail, hwf, -, rfl, -⟩ := decode_eq_ok_iff.mp hdecode
  exact hwf.algorithm

theorem fits_signature {data : Bytes} {c : Certificate} (hdecode : decode data = .ok c) :
    Fits c.signature := by
  obtain ⟨l, signature, tail, -, hsig, rfl, -⟩ := decode_eq_ok_iff.mp hdecode
  exact hsig

end SshCert.Certificate

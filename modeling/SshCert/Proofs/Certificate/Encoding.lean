import SshCert.Proofs.Certificate.Grammar

/-
  Writing certificates and reading them back.
  A certificate is written as a layout of its own (`encode_eq_layout`), so it is read back whatever
  stands behind it, with the code that its type is written as (`decode_encode_append`). A
  certificate that was read is written again as it was read, except that the options are put in
  order and of options with one name only the last is kept (`encode_of_decode`).
-/

namespace SshCert.Certificate

open Wire

/-! ## The layout of a certificate -/

/-- The fields of the certificate as they are written, with the parts of the key. -/
def layout (c : Certificate) (key : List Bytes) : Layout where
  algorithm := c.algorithm
  nonce := c.nonce
  key := key
  serial := c.serial
  typeCode := c.writtenType
  keyId := c.keyId
  principals := c.principals
  validAfter := c.validAfter
  validBefore := c.validBefore
  criticalOptions := c.criticalOptions.entries
  extensions := c.extensions.entries
  reserved := c.reserved
  signatureKey := c.signatureKey

theorem signedMessage_eq_layout {c : Certificate} {key : List Bytes}
    (hkey : c.keyMaterial = encodeStrings key) : c.signedMessage = (c.layout key).encode := by
  rw [signedMessage, Layout.encode, signedFields, hkey]
  rfl

theorem encode_eq_layout {c : Certificate} {key : List Bytes}
    (hkey : c.keyMaterial = encodeStrings key) :
    c.encode = (c.layout key).encode ++ encodeString c.signature := by
  rw [encode_eq, signedMessage_eq_layout hkey]

theorem certificate_layout {c : Certificate} {key : List Bytes}
    (hkey : c.keyMaterial = encodeStrings key) :
    (c.layout key).certificate c.signature =
      { c with type := CertificateType.ofCode c.writtenType, typeCode := c.writtenType } := by
  simp only [Layout.certificate, layout, OptionMap.ofList_entries, ← hkey]

/-! ## Reading what was written -/

/-- The algorithm and the key material are of one of the forms, and the length of every string that
is written can stand in front of it. -/
structure Writable (c : Certificate) : Prop where
  keyMaterial : ∃ form ∈ keyForms, ∃ key : List Bytes, form.1 <+: c.algorithm ∧
    key.length = form.2 ∧ (∀ part ∈ key, Fits part) ∧ c.keyMaterial = encodeStrings key
  algorithm : Fits c.algorithm
  nonce : Fits c.nonce
  keyId : Fits c.keyId
  principals : Fits (encodeStrings c.principals)
  criticalOptions : Fits (encodeOptions c.criticalOptions)
  extensions : Fits (encodeOptions c.extensions)
  reserved : Fits c.reserved
  signatureKey : Fits c.signatureKey
  signature : Fits c.signature

theorem Writable.layout {c : Certificate} (h : c.Writable) :
    ∃ key, (c.layout key).WellFormed ∧ c.keyMaterial = encodeStrings key := by
  obtain ⟨form, hform, key, hstem, hcount, hfits, hkey⟩ := h.keyMaterial
  have hfamily := exists_family_iff.mpr ⟨form, hform, hstem, hcount⟩
  exact ⟨key, ⟨hfamily, h.algorithm, h.nonce, hfits, h.keyId, h.principals, h.criticalOptions,
    h.extensions, h.reserved, h.signatureKey⟩, hkey⟩

theorem writtenType_of_type_eq {c : Certificate}
    (h : c.type = CertificateType.ofCode c.typeCode) : c.writtenType = c.typeCode := by
  unfold writtenType
  unfold CertificateType.ofCode at h
  split at h
  · next hcode => rw [h, hcode]
  · split at h
    · next hcode => rw [h, hcode]
    · rw [h]

/-- A certificate is read back in front of anything, with the code that its type is written as: 1
for users, 2 for hosts, and for an unknown type the code that was kept, which may then stand for
another type. It is the same one if its type is that of its code. -/
theorem decode_encode_append {c : Certificate} (h : c.Writable) (tail : Bytes) :
    (c.type = .user →
      decode (c.encode ++ tail) = .ok { c with type := .user, typeCode := 1 }) ∧
    (c.type = .host →
      decode (c.encode ++ tail) = .ok { c with type := .host, typeCode := 2 }) ∧
    (c.type = .unknown →
      decode (c.encode ++ tail) = .ok { c with
        type := if c.typeCode = 1 then .user else if c.typeCode = 2 then .host else .unknown }) ∧
    (c.type = (if c.typeCode = 1 then .user else if c.typeCode = 2 then .host else .unknown) →
      decode (c.encode ++ tail) = .ok c) := by
  obtain ⟨key, hwf, hkey⟩ := h.layout
  have hread : decode (c.encode ++ tail) = .ok ((c.layout key).certificate c.signature) :=
    decode_eq_ok_iff.mpr ⟨c.layout key, c.signature, tail, hwf, h.signature, rfl, by
      rw [encode_eq_layout hkey, List.append_assoc]⟩
  rw [certificate_layout hkey] at hread
  refine ⟨fun htype => ?_, fun htype => ?_, fun htype => ?_, fun htype => ?_⟩
  · have hcode : c.writtenType = 1 := by rw [writtenType, htype]
    rw [hread, hcode]
    rfl
  · have hcode : c.writtenType = 2 := by rw [writtenType, htype]
    rw [hread, hcode]
    rfl
  · have hcode : c.writtenType = c.typeCode := by rw [writtenType, htype]
    rw [hread, hcode]
    rfl
  · have hofCode : c.type = CertificateType.ofCode c.typeCode := htype
    rw [hread, writtenType_of_type_eq hofCode, ← hofCode]

/-- The same fields can be written for every type and under every code. -/
theorem Writable.typed {c : Certificate} (h : c.Writable) (type : CertificateType) (code : UInt32) :
    ({ c with type, typeCode := code } : Certificate).Writable :=
  ⟨h.keyMaterial, h.algorithm, h.nonce, h.keyId, h.principals, h.criticalOptions, h.extensions,
    h.reserved, h.signatureKey, h.signature⟩

theorem writable_unordered : (Layout.unordered.certificate [4]).Writable := by
  refine ⟨⟨(ascii "ssh-ed25519", 1), ?_, [List.replicate 32 5], ?_, rfl, ?_, rfl⟩, ?_, ?_, ?_, ?_,
    ?_, ?_, ?_, ?_, ?_⟩ <;> decide

/-- Certificates for users and for hosts under another code are read with their own, and those of an
unknown type as what their codes stand for. -/
theorem decode_encode_append_unordered :
    let typed (type : CertificateType) (code : UInt32) : Certificate :=
      { Layout.unordered.certificate [4] with type, typeCode := code }
    (∀ type code, (typed type code).Writable) ∧
      decode ((typed .user 7).encode ++ [7, 7]) = .ok (typed .user 1) ∧
      decode ((typed .host 7).encode ++ [7, 7]) = .ok (typed .host 2) ∧
      decode ((typed .unknown 7).encode ++ [7, 7]) = .ok (typed .unknown 7) ∧
      decode ((typed .unknown 1).encode ++ [7, 7]) = .ok (typed .user 1) ∧
      decode ((typed .unknown 2).encode ++ [7, 7]) = .ok (typed .host 2) ∧
      decode ((typed .host 2).encode ++ [7, 7]) = .ok (typed .host 2) := by
  intro typed
  have hwritable : ∀ type code, (typed type code).Writable := writable_unordered.typed
  refine ⟨hwritable, ?_, ?_, ?_, ?_, ?_, ?_⟩
  · exact (decode_encode_append (hwritable .user 7) [7, 7]).1 rfl
  · exact (decode_encode_append (hwritable .host 7) [7, 7]).2.1 rfl
  · exact (decode_encode_append (hwritable .unknown 7) [7, 7]).2.2.1 rfl
  · exact (decode_encode_append (hwritable .unknown 1) [7, 7]).2.2.1 rfl
  · exact (decode_encode_append (hwritable .unknown 2) [7, 7]).2.2.1 rfl
  · exact (decode_encode_append (hwritable .host 2) [7, 7]).2.2.2 rfl

/-! ## Writing what was read -/

theorem encodePairs_cons (e : Bytes × Bytes) (pairs : List (Bytes × Bytes)) :
    encodePairs (e :: pairs) = encodeString e.1 ++ (encodeString e.2 ++ encodePairs pairs) := by
  simp [encodePairs]

theorem encodePairs_append (pairs others : List (Bytes × Bytes)) :
    encodePairs (pairs ++ others) = encodePairs pairs ++ encodePairs others := by
  simp [encodePairs, pairStrings, encodeStrings]

/-- An insertion adds no more than the entry that is inserted. -/
theorem length_encodePairs_insertEntry_le (e : Bytes × Bytes) (l : List (Bytes × Bytes)) :
    (encodePairs (OptionMap.insertEntry e.1 e.2 l)).length ≤
      (encodePairs l).length + (encodePairs [e]).length := by
  induction l with
  | nil => simp [OptionMap.insertEntry]
  | cons d r ih =>
    simp only [OptionMap.insertEntry]
    split
    · simp only [encodePairs_cons, List.length_append]
      omega
    · split
      · simp only [encodePairs_cons, List.length_append]
        omega
      · simp only [encodePairs_cons, List.length_append] at ih ⊢
        omega

/-- What a map keeps of a row is no longer than the row. -/
theorem length_encodePairs_ofList_le (pairs : List (Bytes × Bytes)) :
    (encodePairs (OptionMap.ofList pairs).entries).length ≤ (encodePairs pairs).length := by
  induction pairs using List.reverseRecOn with
  | nil => exact Nat.le_refl _
  | append_singleton pairs e ih =>
    have hinsert := length_encodePairs_insertEntry_le e (OptionMap.ofList pairs).entries
    rw [OptionMap.ofList_append_singleton, OptionMap.entries_insert, encodePairs_append,
      List.length_append]
    omega

namespace Layout

/-- The layout with its options in order, and of options with one name only the last. -/
def ordered (l : Layout) : Layout :=
  { l with
    criticalOptions := (OptionMap.ofList l.criticalOptions).entries
    extensions := (OptionMap.ofList l.extensions).entries }

theorem ordered_eq_iff {l : Layout} :
    l.ordered = l ↔ Ascending l.criticalOptions ∧ Ascending l.extensions := by
  rw [← OptionMap.entries_ofList_eq_iff, ← OptionMap.entries_ofList_eq_iff]
  cases l
  simp [ordered]

theorem length_encode_ordered_le (l : Layout) : l.ordered.encode.length ≤ l.encode.length := by
  have hcritical := length_encodePairs_ofList_le l.criticalOptions
  have hextensions := length_encodePairs_ofList_le l.extensions
  have hordered := congrArg List.length (l.ordered.encode_append [])
  have hlayout := congrArg List.length (l.encode_append [])
  simp only [List.length_append, List.length_nil, length_encodeString, ordered] at hordered hlayout
  simp only [ordered]
  omega

theorem WellFormed.ordered {l : Layout} (h : l.WellFormed) : l.ordered.WellFormed :=
  ⟨h.family, h.algorithm, h.nonce, h.key, h.keyId, h.principals,
    Nat.lt_of_le_of_lt (length_encodePairs_ofList_le l.criticalOptions) h.criticalOptions,
    Nat.lt_of_le_of_lt (length_encodePairs_ofList_le l.extensions) h.extensions,
    h.reserved, h.signatureKey⟩

theorem layout_certificate (l : Layout) (signature : Bytes) :
    (l.certificate signature).layout l.key = l.ordered := by
  have hcode : (l.certificate signature).writtenType = l.typeCode := writtenType_of_type_eq rfl
  rw [layout, hcode]
  rfl

theorem encode_certificate (l : Layout) (signature : Bytes) :
    (l.certificate signature).encode = l.ordered.encode ++ encodeString signature := by
  rw [encode_eq_layout rfl, layout_certificate]
  rfl

/-- Putting the options in order changes the layout and not the certificate. -/
theorem certificate_ordered (l : Layout) (signature : Bytes) :
    l.ordered.certificate signature = l.certificate signature := by
  simp only [certificate, ordered, OptionMap.ofList_entries]

end Layout

/-- A certificate that was read is written in no more bytes than it was read from and is read back
as it is. The bytes are the same ones exactly if the options stood in ascending order of their
names. -/
theorem encode_of_decode {b : Bytes} {c : Certificate} (h : decode b = .ok c) :
    ∃ l signature tail, Layout.Stands l signature tail b ∧ c.Holds l signature ∧
      decode c.encode = .ok c ∧
      c.encode.length ≤ l.endOffset signature .signature ∧
      (c.encode = b.take (l.endOffset signature .signature) ↔
        Ascending l.criticalOptions ∧ Ascending l.extensions) := by
  obtain ⟨l, signature, tail, hstands, rfl⟩ := decode_eq_ok_iff_stands.mp h
  obtain ⟨hwf, hsignature, -⟩ := Layout.stands_iff.mp hstands
  refine ⟨l, signature, tail, hstands, holds_iff.mpr rfl, ?_, ?_, ?_⟩
  · rw [Layout.encode_certificate]
    exact decode_eq_ok_iff.mpr ⟨l.ordered, signature, [], hwf.ordered, hsignature,
      (l.certificate_ordered signature).symm, by rw [List.append_nil]⟩
  · have hle := l.length_encode_ordered_le
    rw [Layout.encode_certificate, Layout.endOffset_signature, List.length_append,
      List.length_append]
    omega
  · rw [Layout.encode_certificate, hstands.take_eq, ← Layout.ordered_eq_iff]
    constructor
    · intro heq
      exact (Layout.encode_append_inj hwf.ordered hwf heq).1
    · intro heq
      rw [heq]

/-- A certificate with unordered options is written in other bytes. -/
theorem encode_of_decode_unordered :
    let b := Layout.unordered.encode ++ (encodeString [4] ++ [7, 7])
    let c := Layout.unordered.certificate [4]
    let size := Layout.unordered.endOffset [4] .signature
    decode b = .ok c ∧ decode c.encode = .ok c ∧ c.encode.length ≤ size ∧
      c.encode ≠ b.take size := by
  intro b c size
  have hdecode : decode b = .ok c := Layout.stands_unordered.decode_eq
  obtain ⟨l, signature, tail, hstands, -, hagain, hle, hsame⟩ := encode_of_decode hdecode
  obtain ⟨rfl, rfl, -⟩ := hstands.unique Layout.stands_unordered
  exact ⟨hdecode, hagain, hle, fun heq => absurd (hsame.mp heq) (by decide)⟩

end SshCert.Certificate

import SshCert.Proofs.Certificate.Binding
import SshCert.Proofs.Certificate.Sniff
import SshCert.Proofs.Key.Blob
import SshCert.Proofs.Key.Signature
import SshCert.Proofs.Suite.Admission

/-
  Certificates that an authority issues.
  The authority signs a certificate as it is written with an empty signature, up to the length of
  that signature (`toBeSigned`), and its signature blob then takes the place of the empty one. The
  verifier cuts the blob off at the end and is left with what was signed (`signedPart_issued`), the
  key of the authority is read back from its own blob (`Suite.loadPublic_encode`), and so a verifier
  decides about an issued certificate as its suite does about the raw signature
  (`verifySignature_issued`).
-/

namespace SshCert

open Wire

/-! ## The key of the authority -/

/-- Every Ed25519 key that is accepted has the size of one. -/
def Suite.ChecksSize (s : Suite) : Prop :=
  ∀ key, s.acceptsPublic (.ed25519 key) = true → key.length = ed25519KeySize

theorem Suite.checksSize_standard : Suite.standard.ChecksSize := by
  intro key haccepts
  exact beq_iff_eq.mp haccepts

theorem Suite.publicOf_eq_some_iff {s : Suite} {k : PrivateKey} {authority : PublicKey} :
    (s.publicOf k).value = some authority ↔
      s.acceptsPublic k.publicHalf = true ∧ k.publicHalf = authority := by
  rw [publicOf, admitPublic_value, Option.ite_none_right_eq_some, Option.some.injEq]

theorem Suite.ChecksSize.normal {s : Suite} (hs : s.ChecksSize) {k : PrivateKey}
    (haccepts : s.acceptsPublic k.publicHalf = true) : k.publicHalf.Normal := by
  cases k with
  | ed25519 seed key => exact hs key haccepts
  | rsa e n d p q iqmp => exact ⟨Bytes.dropZeros_dropZeros e, Bytes.dropZeros_dropZeros n⟩
  | ecdsa c point scalar => exact trivial

/-- The public half of a private key is read back from its blob. -/
theorem Suite.loadPublic_encode {s : Suite} (hs : s.ChecksSize) {k : PrivateKey}
    (haccepts : s.acceptsPublic k.publicHalf = true) (hfits : Fits k.publicHalf.encode) :
    (s.loadPublic k.publicHalf.encode).value = some k.publicHalf := by
  have hparse := PublicKey.parse_encode_append (hs.normal haccepts) hfits []
  rw [List.append_nil] at hparse
  exact loadPublic_eq_some_iff.mpr ⟨hparse, haccepts⟩

namespace Certificate

/-! ## What the authority signs -/

/-- The certificate as it is written with an empty signature, without the four bytes that such a
signature takes. -/
def toBeSigned (c : Certificate) : Bytes :=
  let b := encode { c with signature := [] }
  b.take (b.length - 4)

theorem toBeSigned_eq (c : Certificate) : c.toBeSigned = c.signedMessage := by
  have hencode : encode { c with signature := [] } = c.signedMessage ++ encodeString [] :=
    encode_eq { c with signature := [] }
  have hlen : (c.signedMessage ++ encodeString []).length - 4 = c.signedMessage.length := by
    rw [List.length_append, length_encodeString, List.length_nil]
    omega
  rw [toBeSigned, hencode, hlen, List.take_left]

/-- With the signature in place, the signed part is what was to be signed. -/
theorem signedPart_issued (c : Certificate) {signature : Bytes} (hsignature : Fits signature) :
    let issued := { c with signature := signature }
    issued.signedPart issued.encode = .ok c.toBeSigned := by
  intro issued
  rw [toBeSigned_eq, signedPart_eq_ok_iff hsignature]
  exact encode_eq issued

theorem verifySignature_eq_false {s : Suite} {c : Certificate} {data : Bytes}
    (hsignature : Fits c.signature) (hend : ¬ encodeString c.signature <:+ data) :
    (c.verifySignature s data).value = false := by
  rw [← Bool.not_eq_true, verifySignature_eq_true_iff hsignature]
  intro h
  obtain ⟨message, hsigned⟩ := h
  exact hend ⟨message, hsigned.data_eq.symm⟩

/-! ## Issuing and verifying -/

/-- The verifier decides about an issued certificate as the suite does about the raw signature. -/
theorem verifySignature_issued_value {s : Suite} (hs : s.SignsInHalves) (hsize : s.ChecksSize)
    {c : Certificate} {secret : PrivateKey} {t : SignatureType} {random : RandomSource}
    {raw : Bytes}
    (haccepts : s.acceptsPublic secret.publicHalf = true)
    (hkey : c.signatureKey = secret.publicHalf.encode) (hfits : Fits c.signatureKey)
    (hmakes : secret.type.makes t = true) (hraw : s.sign secret t c.toBeSigned random = some raw)
    (hsignature : Fits (SignatureBlob.ofRaw t raw).encode) :
    let issued := { c with signature := (SignatureBlob.ofRaw t raw).encode }
    (issued.verifySignature s issued.encode).value =
      s.verify secret.publicHalf t c.toBeSigned raw := by
  intro issued
  have hloaded : (issued.authorityKey s).value = some secret.publicHalf := by
    rw [authorityKey_value]
    show (s.loadPublic c.signatureKey).value = _
    rw [hkey] at hfits ⊢
    exact Suite.loadPublic_encode hsize haccepts hfits
  rw [verifySignature_value, signedPart_issued c hsignature]
  dsimp only
  rw [hloaded, Option.any_some]
  exact Suite.verifyBlob_publicHalf hs hmakes hraw hsignature

/-- A certificate that names the key of an authority and is signed with the private half of that
key. The verifier takes exactly what was to be signed and decides as its suite does about the raw
signature. Bytes behind the signature make it refuse, unless they end in the signature again. Of the
certificate only the blob of the authority has to fit its field. -/
theorem verifySignature_issued {s : Suite} (hs : s.SignsInHalves) (hsize : s.ChecksSize)
    {c : Certificate} {secret : PrivateKey} {authority : PublicKey} {t : SignatureType}
    {random : RandomSource} {signature : Bytes}
    (hauthority : (s.publicOf secret).value = some authority)
    (hkey : c.signatureKey = authority.encode) (hfits : Fits c.signatureKey)
    (hsign : (s.signBlob secret t c.toBeSigned random).value = some signature)
    (hsignature : Fits signature) :
    let issued := { c with signature := signature }
    issued.signedPart issued.encode = .ok c.toBeSigned ∧
      (∃ raw, s.sign secret t c.toBeSigned random = some raw ∧
        (issued.verifySignature s issued.encode).value = s.verify authority t c.toBeSigned raw) ∧
      ∀ tail, ¬ encodeString signature <:+ issued.encode ++ tail →
        (issued.verifySignature s (issued.encode ++ tail)).value = false := by
  intro issued
  obtain ⟨haccepts, rfl⟩ := Suite.publicOf_eq_some_iff.mp hauthority
  obtain ⟨hmakes, raw, hraw, rfl⟩ := Suite.signBlob_eq_some_iff.mp hsign
  exact ⟨signedPart_issued c hsignature,
    ⟨raw, hraw, verifySignature_issued_value hs hsize haccepts hkey hfits hmakes hraw hsignature⟩,
    fun tail hend => verifySignature_eq_false hsignature hend⟩

/-! ## An authority and its certificates -/

namespace Sample

/-- A number of 48 bytes from its thirds. -/
def thirds (high middle low : Nat) : Bytes :=
  Bytes.ofNat 16 high ++ Bytes.ofNat 16 middle ++ Bytes.ofNat 16 low

def modulus : Bytes :=
  thirds 0xd5485935d21a9e2452c496d4a66ebb21 0xc8c38db3843d7443e6fdb4a1fd201266
    0x493a1b98d3a77b336513fd66223720cb

def exponent : Bytes :=
  thirds 0x8e303b7936bc696d8c830f386ef47cc1 0x30825e77ad7e4d81626bceb013fdfa31
    0x4eb2b5e8e8527ae6b404705d2ed88e1b

def firstPrime : Bytes := Bytes.ofNat 24 0xec18cd4ec1e8fb16d7ad18a78ff5ba77e244d05f0a857747

def secondPrime : Bytes := Bytes.ofNat 24 0xe743314b1d3a20057b80f213e736086174c8847b516cd45d

def inverse : Bytes := Bytes.ofNat 24 0x20b5f51299ef55e4c9913346f8c673201eff08f7e7d96fb8

/-- The key that signs certificates; its public exponent is three. -/
def secret : PrivateKey := .rsa [3] modulus exponent firstPrime secondPrime inverse

def authority : PublicKey := .rsa [3] modulus

def random : RandomSource := ⟨64, fun _ => 3⟩

theorem publicOf_secret : (Suite.standard.publicOf secret).value = some authority :=
  Suite.publicOf_eq_some_iff.mpr ⟨by decide +kernel, by decide +kernel⟩

theorem fits_authority : Fits authority.encode := by decide +kernel

theorem standard_sign_rsa (e n d p q iqmp m : Bytes) (r : RandomSource) :
    Suite.standard.sign (.rsa e n d p q iqmp) .rsaSha1 m r =
      (Suite.rsaNumbers e n d p q iqmp).sign .sha1 (HashType.sha1.digest m) r := rfl

theorem standard_verify_rsa (e n m raw : Bytes) :
    Suite.standard.verify (.rsa e n) .rsaSha1 m raw =
      Primitive.Rsa.verify (Bytes.toNat e) (Bytes.toNat n) .sha1 (HashType.sha1.digest m) raw := rfl

/-- The fields of a user certificate without bounds and options. -/
def layout (algorithm keyId : Bytes) (key : List Bytes) : Layout where
  algorithm := algorithm
  nonce := []
  key := key
  serial := 1
  typeCode := 1
  keyId := keyId
  principals := []
  validAfter := 0
  validBefore := 0
  criticalOptions := []
  extensions := []
  reserved := []
  signatureKey := authority.encode

/-- A user certificate that the authority has signed, with the digest that was signed. -/
structure Issued where
  algorithm : Bytes
  keyId : Bytes
  key : List Bytes
  digest : Bytes
  raw : Bytes
  wellFormed : (layout algorithm keyId key).WellFormed
  digest_eq : HashType.sha1.digest (layout algorithm keyId key).encode = digest
  signed :
    (Suite.rsaNumbers [3] modulus exponent firstPrime secondPrime inverse).sign .sha1 digest
      random = some raw
  verified :
    Primitive.Rsa.verify (Bytes.toNat [3]) (Bytes.toNat modulus) .sha1 digest raw = true
  fits : Fits ((layout algorithm keyId key).encode ++
    encodeString (SignatureBlob.ofRaw .rsaSha1 raw).encode)

namespace Issued

def fields (i : Issued) : Layout := layout i.algorithm i.keyId i.key

def signature (i : Issued) : Bytes := (SignatureBlob.ofRaw .rsaSha1 i.raw).encode

def certificate (i : Issued) : Certificate := i.fields.certificate i.signature

/-- The certificate before it is signed. -/
def unsigned (i : Issued) : Certificate := i.fields.certificate []

def blob (i : Issued) : Bytes := i.fields.encode ++ encodeString i.signature

theorem toBeSigned_unsigned (i : Issued) : i.unsigned.toBeSigned = i.fields.encode := by
  rw [toBeSigned_eq]
  rfl

theorem encode_certificate (i : Issued) : i.certificate.encode = i.blob := by
  rw [encode_eq]
  rfl

theorem fits_blob (i : Issued) : Fits i.blob := i.fits

theorem fits_signature (i : Issued) : Fits i.signature := by
  have hblob := i.fits_blob
  rw [blob, Fits, List.length_append, length_encodeString] at hblob
  rw [Fits]
  omega

theorem decode_blob (i : Issued) : decode i.blob = .ok i.certificate :=
  decode_eq_ok_iff.mpr ⟨i.fields, i.signature, [], i.wellFormed, i.fits_signature, rfl, by
    rw [List.append_nil]
    rfl⟩

theorem isCertificate_blob (i : Issued) (hshort : i.algorithm.length ≤ maxAlgorithmSize)
    (hmarked : isCertificateName i.algorithm = true) : isCertificate i.blob = true :=
  (isCertificate_iff_of_decode i.decode_blob).mpr ⟨hshort, isCertificateName_iff.mp hmarked⟩

theorem sign_fields (i : Issued) :
    Suite.standard.sign secret .rsaSha1 i.fields.encode random = some i.raw := by
  have hdigest : HashType.sha1.digest i.fields.encode = i.digest := i.digest_eq
  rw [secret, standard_sign_rsa, hdigest]
  exact i.signed

theorem verify_raw (i : Issued) :
    Suite.standard.verify authority .rsaSha1 i.fields.encode i.raw = true := by
  have hdigest : HashType.sha1.digest i.fields.encode = i.digest := i.digest_eq
  rw [authority, standard_verify_rsa, hdigest]
  exact i.verified

theorem verifySignature_blob (i : Issued) :
    (i.certificate.verifySignature Suite.standard i.blob).value = true := by
  obtain ⟨haccepts, hpublic⟩ := Suite.publicOf_eq_some_iff.mp publicOf_secret
  have hkey : i.unsigned.signatureKey = secret.publicHalf.encode := by
    rw [hpublic]
    rfl
  have hraw : Suite.standard.sign secret .rsaSha1 i.unsigned.toBeSigned random = some i.raw := by
    rw [i.toBeSigned_unsigned]
    exact i.sign_fields
  have hvalue : (i.certificate.verifySignature Suite.standard i.certificate.encode).value =
      Suite.standard.verify secret.publicHalf .rsaSha1 i.unsigned.toBeSigned i.raw :=
    verifySignature_issued_value (c := i.unsigned) Suite.signsInHalves_standard
      Suite.checksSize_standard haccepts hkey fits_authority (by decide) hraw i.fits_signature
  rw [i.encode_certificate] at hvalue
  rw [hvalue, hpublic, i.toBeSigned_unsigned, i.verify_raw]

end Issued

/-- A certificate for a key of a type that no suite knows. -/
def dss : Issued where
  algorithm := ascii "ssh-dss-cert-v01@openssh.com"
  keyId := ascii "dss"
  key := [[1], [2], [3], [4]]
  digest := Bytes.ofNat 20 0x403c0564_3ff90c85_5271e8d1_4344da2a_bb042d5c
  raw :=
    thirds 0x724387850bacc5926e363bb51a58f8e5 0xfb2a9407c1498bb9ad8b07f4feed086c
      0x860597da1d73a2e40e1ea1c74309aad4
  wellFormed := by
    refine ⟨⟨.dss, ?_, ?_⟩, ?_, ?_, ?_, ?_, ?_, ?_, ?_, ?_, ?_⟩ <;> decide +kernel
  digest_eq := by decide +kernel
  signed := by decide +kernel
  verified := by decide +kernel
  fits := by decide +kernel

theorem isCertificate_dss : isCertificate dss.blob = true :=
  dss.isCertificate_blob (by decide) (by decide)

end Sample

/-- The authority issues its certificate. A byte behind it makes the verifier refuse. -/
theorem verifySignature_issued_dss :
    let unsigned := Sample.dss.unsigned
    let issued := { unsigned with signature := Sample.dss.signature }
    (Suite.standard.signBlob Sample.secret .rsaSha1 unsigned.toBeSigned Sample.random).value =
        some Sample.dss.signature ∧
      (issued.verifySignature Suite.standard issued.encode).value = true ∧
      (issued.verifySignature Suite.standard (issued.encode ++ [0])).value = false := by
  intro unsigned issued
  have hmessage : unsigned.toBeSigned = Sample.dss.fields.encode :=
    Sample.dss.toBeSigned_unsigned
  have hsign : (Suite.standard.signBlob Sample.secret .rsaSha1 unsigned.toBeSigned
      Sample.random).value = some Sample.dss.signature := by
    rw [hmessage]
    exact Suite.signBlob_eq_some_iff.mpr ⟨by decide, _, Sample.dss.sign_fields, rfl⟩
  obtain ⟨-, ⟨raw, hraw, hvalue⟩, htail⟩ := verifySignature_issued Suite.signsInHalves_standard
    Suite.checksSize_standard Sample.publicOf_secret rfl Sample.fits_authority hsign
    Sample.dss.fits_signature
  rw [hmessage] at hraw hvalue
  have hsame : raw = Sample.dss.raw := Option.some.inj (hraw.symm.trans Sample.dss.sign_fields)
  refine ⟨hsign, ?_, htail [0] (by decide +kernel)⟩
  exact hvalue.trans (hsame ▸ Sample.dss.verify_raw)

end Certificate

end SshCert

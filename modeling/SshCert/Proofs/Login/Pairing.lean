import SshCert.Proofs.Certificate.Issuing
import SshCert.Proofs.Certificate.TextLine
import SshCert.Proofs.Login.Agreement

/-
  A key and its own certificate.
  The certificate of a credential is compared with the key by bytes: the plain name of the algorithm
  and the key material against the blob of the public half. As this blob is a normal form, the
  server that reads the certificate finds the very key that signs, whatever family it is of; and
  nothing else is asked of the two than that they can be read and that these bytes are the same
  (`Credential.load_certifies`).
-/

namespace SshCert

open Wire

/-! ## Certificates as they are configured -/

namespace Certificate.Source

/-- How many bytes the certificate has as it is configured. -/
def size : Source → Nat
  | .absent => 0
  | .binary b => b.length
  | .text line => line.length

/-- The bytes of the certificate: a binary one as it is, else what the second token of the line
stands for. -/
def content? : Source → Option Bytes
  | .absent => none
  | .binary b => some b
  | .text line => Base64.decode (Text.token (Text.token line).2).1

variable {source : Source} {b : Bytes}

theorem toBinary_text_eq_ok_iff {line : Bytes} :
    (text line).toBinary = .ok (.binary b) ↔ parseLine line = .ok b := by
  rw [toBinary]
  cases parseLine line with
  | error e =>
    constructor <;>
    · intro h
      cases h
  | ok b' => rw [Except.map, Except.ok.injEq, binary.injEq, Except.ok.injEq]

theorem content?_of_toBinary (h : source.toBinary = .ok (.binary b)) :
    source.content? = some b := by
  cases source with
  | absent => cases h
  | binary b' =>
    cases h
    rfl
  | text line => exact (parseLine_eq_ok_iff_token.mp (toBinary_text_eq_ok_iff.mp h)).2

theorem length_le_of_toBinary (h : source.toBinary = .ok (.binary b)) : b.length ≤ source.size := by
  cases source with
  | absent => cases h
  | binary b' =>
    cases h
    exact Nat.le_refl _
  | text line =>
    obtain ⟨l, -, -, rfl, -, hdecode⟩ := parseLine_eq_ok_iff.mp (toBinary_text_eq_ok_iff.mp h)
    have hdata := Base64.length_le_of_decode hdecode
    simp only [size, TextLine.text, List.length_append]
    omega

end Certificate.Source

namespace Login.Credential

/-! ## What loading makes sure of -/

section Loads

variable {s : Suite} {file : Bytes} {source : Certificate.Source} {secret : PrivateKey}
  {c : Credential}

theorem Loads.publicOf_value (h : c.Loads s file source secret) :
    (s.publicOf secret).value = some secret.publicHalf :=
  Suite.publicOf_eq_some_iff.mpr ⟨h.acceptsPublic, rfl⟩

theorem Loads.fits_blob (h : c.Loads s file source secret) (hsource : source.size < 4294967296) :
    Fits c.blob :=
  Nat.lt_of_le_of_lt (Certificate.Source.length_le_of_toBinary h.binary) hsource

/-- Loading needs no more than a key file and a certificate that can be read, and the key of the one
in the other. -/
theorem loads_of_certifiedBlob {comment blob : Bytes} {key : PublicKey} {certificate : Certificate}
    (hprivate : (s.loadPrivate file).value = ⟨some secret, comment⟩)
    (hpublic : (s.publicOf secret).value = some key)
    (hsource : source.toBinary = .ok (.binary blob))
    (hsniffed : Certificate.isCertificate blob = true)
    (hdecoded : Certificate.decode blob = .ok certificate)
    (hcertified : certificate.certifiedBlob = key.encode) :
    Loads s file source secret ⟨⟨key, some secret, comment⟩, certificate, blob⟩ := by
  obtain ⟨hparsed, haccepts⟩ := Suite.loadPrivate_eq_some_iff.mp hprivate
  obtain ⟨hacceptsPublic, rfl⟩ := Suite.publicOf_eq_some_iff.mp hpublic
  exact ⟨hparsed, haccepts, hacceptsPublic, rfl, hsource, hsniffed, hdecoded, hcertified⟩

end Loads

/-- A credential is only made of a private key and its own certificate. Its certificate is what its
bytes are decoded to, and these are the ones that were configured; the algorithm of the certificate
is the type of the key, the mark and a version; and the key that is loaded from the certificate is
of this type and has the blob of the public half. Conversely a private key with a public half is
combined with every certificate whose certified blob is the blob of this half. -/
theorem load_certifies (s : Suite) (file : Bytes) (source : Certificate.Source) :
    (source.size < 4294967296 → ∀ c : Credential, (load s file source).value = .ok c →
      ∃ (secret : PrivateKey) (key : PublicKey),
        (s.loadPrivate file).value = ⟨some secret, c.identity.comment⟩ ∧
        (s.publicOf secret).value = some key ∧
        c.identity = ⟨key, some secret, c.identity.comment⟩ ∧
        Certificate.decode c.blob = .ok c.certificate ∧
        source.content? = some c.blob ∧
        (∃ version, c.certificate.algorithm = secret.type.name ++ (ascii "-cert-v" ++ version)) ∧
        ∃ certified, (c.certificate.certifiedKey s).value = some certified ∧
          certified.type = secret.type ∧ certified.encode = key.encode) ∧
    ∀ (secret : PrivateKey) (key : PublicKey) (comment blob : Bytes) (certificate : Certificate),
      (s.loadPrivate file).value = ⟨some secret, comment⟩ →
      (s.publicOf secret).value = some key →
      source.toBinary = .ok (.binary blob) →
      Certificate.isCertificate blob = true →
      Certificate.decode blob = .ok certificate →
      certificate.certifiedBlob = key.encode →
      (load s file source).value = .ok ⟨⟨key, some secret, comment⟩, certificate, blob⟩ := by
  constructor
  · intro hsource c hload
    obtain ⟨secret, h⟩ := load_eq_ok_iff.mp hload
    exact ⟨secret, secret.publicHalf, h.loadPrivate_value, h.publicOf_value, h.identity, h.decoded,
      Certificate.Source.content?_of_toBinary h.binary, h.algorithm_eq.2, secret.publicHalf,
      h.certifiedKey_eq (h.fits_blob hsource), secret.type_publicHalf, rfl⟩
  · intro secret key comment blob certificate hprivate hpublic hsource hsniffed hdecoded hcertified
    exact load_eq_ok_iff.mpr
      ⟨secret, loads_of_certifiedBlob hprivate hpublic hsource hsniffed hdecoded hcertified⟩

end Login.Credential

namespace Login.Sample

/-- The certificate of the sample login in a line of text. -/
def textLine : Certificate.TextLine where
  lead := []
  type := ascii "ssh-rsa-cert-v01@openssh.com"
  gap := ascii " "
  data := Base64.encode credential.blob
  comment := ascii " ann@host"
  trail := ascii "\n"

theorem algorithm_textLine :
    Certificate.algorithm? credential.blob = some textLine.type := by
  have hstring : ∃ rest, string credential.blob = some (textLine.type, rest) := by
    show ∃ rest, string (layout.encode ++ encodeString signature) = some (_, rest)
    rw [Certificate.Layout.encode_append]
    exact ⟨_, string_encodeString (by decide : Fits textLine.type) _⟩
  exact Certificate.algorithm?_eq_some_iff.mpr
    ⟨hstring, by decide, isCertificateName_iff.mp (by decide)⟩

theorem toBinary_textLine :
    (Certificate.Source.text textLine.text).toBinary = .ok (.binary credential.blob) := by
  have hframed : textLine.Framed :=
    ⟨by decide, by decide, by decide, by decide, by decide, by decide⟩
  have hunblanked : textLine.type.any Text.isBlank = false := by decide
  have htype : Text.IsToken textLine.type :=
    Text.isToken_of_unblanked (by decide) fun c hc =>
      mt Text.isBlank_iff.mpr (List.any_eq_false.mp hunblanked c hc)
  have hdecode : Base64.decode textLine.data = some credential.blob :=
    Base64.decode_encode (by decide)
  exact Certificate.Source.toBinary_text_eq_ok_iff.mpr
    (Certificate.parseLine_eq_ok_iff.mpr
      ⟨textLine, hframed, htype, rfl, algorithm_textLine, hdecode⟩)

end Login.Sample

theorem Login.Credential.load_certifies_line :
    (Certificate.Source.text Sample.textLine.text).size < 4294967296 ∧
      (load Sample.suite Sample.file (.text Sample.textLine.text)).value = .ok Sample.credential ∧
      (Certificate.Source.text Sample.textLine.text).content? = some Sample.credential.blob ∧
      ∃ certified, (Sample.credential.certificate.certifiedKey Sample.suite).value =
          some certified ∧
        certified.type = .rsa ∧ certified.encode = Sample.user.publicHalf.encode := by
  have hprivate := Sample.loads.loadPrivate_value
  have hpublic := Sample.loads.publicOf_value
  have hsize : (Certificate.Source.text Sample.textLine.text).size < 4294967296 := by
    decide +kernel
  obtain ⟨hforward, hbackward⟩ :=
    load_certifies Sample.suite Sample.file (.text Sample.textLine.text)
  have hload := hbackward Sample.user _ _ _ _ hprivate hpublic Sample.toBinary_textLine
    Sample.loads.sniffed Sample.loads.decoded Sample.loads.certified
  obtain ⟨secret, key, hprivate', hpublic', -, -, hcontent, -, certified, hcertified, htype,
    hencode⟩ := hforward hsize Sample.credential hload
  obtain rfl : Sample.user = secret := by
    rw [hprivate] at hprivate'
    exact Option.some.inj (congrArg LoadedKey.key? hprivate')
  rw [hpublic, Option.some.injEq] at hpublic'
  rw [← hpublic'] at hencode
  exact ⟨hsize, hload, hcontent, certified, hcertified, htype, hencode⟩

end SshCert

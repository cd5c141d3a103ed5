import SshCert.Login.Credential
import SshCert.Proofs.Key.Identity

/-
  What a loaded credential is.
  `Credential.Loads` collects everything that loading makes sure of: the key file and the
  certificate can be read, both halves of the key are accepted, and the certificate is for this
  very key. Loading succeeds exactly then (`Credential.load_eq_ok_iff`).
-/

namespace SshCert.Login.Credential

/-- The credential is that of the secret key in the file and of the certificate in the source. -/
structure Loads (s : Suite) (file : Bytes) (source : Certificate.Source) (secret : PrivateKey)
    (c : Credential) : Prop where
  parsed : KeyFile.parse file = .ok (secret, c.identity.comment)
  acceptsPrivate : s.acceptsPrivate secret = true
  acceptsPublic : s.acceptsPublic secret.publicHalf = true
  identity : c.identity = ⟨secret.publicHalf, some secret, c.identity.comment⟩
  binary : source.toBinary = .ok (.binary c.blob)
  sniffed : Certificate.isCertificate c.blob = true
  decoded : Certificate.decode c.blob = .ok c.certificate
  certified : c.certificate.certifiedBlob = secret.publicHalf.encode

theorem Loads.made {s : Suite} {file : Bytes} {source : Certificate.Source} {secret : PrivateKey}
    {c : Credential} (h : c.Loads s file source secret) : c.identity.Made s := by
  have hmade : (Identity.ofPrivate s ⟨some secret, c.identity.comment⟩).value = some c.identity :=
    Identity.ofPrivate_eq_some_iff.mpr ⟨secret, rfl, h.acceptsPublic, h.identity⟩
  exact .ofPrivate hmade

theorem Loads.loadPrivate_value {s : Suite} {file : Bytes} {source : Certificate.Source}
    {secret : PrivateKey} {c : Credential} (h : c.Loads s file source secret) :
    (s.loadPrivate file).value = ⟨some secret, c.identity.comment⟩ :=
  Suite.loadPrivate_eq_some_iff.mpr ⟨h.parsed, h.acceptsPrivate⟩

theorem combine_eq_ok_iff {identity? : Option Identity} {source : Certificate.Source}
    {c : Credential} :
    combine identity? source = .ok c ↔
      source = .binary c.blob ∧ Certificate.isCertificate c.blob = true ∧
        Certificate.decode c.blob = .ok c.certificate ∧ identity? = some c.identity := by
  obtain ⟨identity, certificate, blob⟩ := c
  constructor
  · intro h
    unfold combine at h
    split at h
    · next b =>
      split at h
      · cases h
      · next hsniffed =>
        split at h
        · cases h
        · next c hdecoded =>
          split at h
          · cases h
          · next i =>
            cases h
            rw [Bool.not_eq_true', Bool.not_eq_false] at hsniffed
            exact ⟨rfl, hsniffed, hdecoded, rfl⟩
    · cases h
  · intro h
    obtain ⟨rfl, hsniffed, hdecoded, rfl⟩ := h
    dsimp only at hsniffed hdecoded ⊢
    rw [combine, if_neg (by rw [hsniffed]; nofun), hdecoded]

/-- Loading without the lines that are written on the way. -/
theorem load_eq_ok_iff_combine {s : Suite} {file : Bytes} {source : Certificate.Source}
    {c : Credential} :
    (load s file source).value = .ok c ↔
      (s.loadPrivate file).value.key?.isSome = true ∧ ∃ binary,
        source.toBinary = .ok binary ∧
        combine (Identity.ofPrivate s (s.loadPrivate file).value).value binary = .ok c ∧
        c.fits = true := by
  unfold load
  rw [Logged.value_bind, Logged.value_ite]
  by_cases hnone : (s.loadPrivate file).value.key?.isNone = true
  · rw [if_pos hnone]
    constructor
    · intro h
      cases h
    · intro h
      rw [← Option.not_isSome, h.1] at hnone
      cases hnone
  · rw [if_neg hnone]
    rw [Bool.not_eq_true, Option.isNone_eq_false_iff] at hnone
    rw [and_iff_right hnone]
    cases source.toBinary with
    | error e =>
      constructor
      · intro h
        cases h
      · intro h
        obtain ⟨binary, hbinary, -⟩ := h
        cases hbinary
    | ok binary =>
      dsimp only
      rw [Logged.value_bind]
      cases hresult : combine (Identity.ofPrivate s (s.loadPrivate file).value).value binary with
      | error e =>
        constructor
        · intro h
          cases h
        · intro h
          obtain ⟨binary', hbinary, hcombine, -⟩ := h
          cases hbinary
          rw [hresult] at hcombine
          cases hcombine
      | ok c' =>
        dsimp only
        rw [Logged.value_ite]
        constructor
        · intro h
          split at h
          · cases h
          · next hfits =>
            cases h
            rw [Bool.not_eq_true', Bool.not_eq_false] at hfits
            exact ⟨binary, rfl, hresult, hfits⟩
        · intro h
          obtain ⟨binary', hbinary, hcombine, hfits⟩ := h
          cases hbinary
          rw [hresult] at hcombine
          cases hcombine
          rw [hfits]
          rfl

theorem load_eq_ok_iff {s : Suite} {file : Bytes} {source : Certificate.Source} {c : Credential} :
    (load s file source).value = .ok c ↔ ∃ secret, c.Loads s file source secret := by
  rw [load_eq_ok_iff_combine]
  constructor
  · intro h
    obtain ⟨-, binary, hbinary, hcombine, hfits⟩ := h
    obtain ⟨rfl, hsniffed, hdecoded, hidentity⟩ := combine_eq_ok_iff.mp hcombine
    obtain ⟨secret, hsecret, hpublic, hidentity⟩ := Identity.ofPrivate_eq_some_iff.mp hidentity
    have hcomment : c.identity.comment = (s.loadPrivate file).value.comment := by
      rw [hidentity]
    rw [← hcomment] at hidentity
    have hloaded : (s.loadPrivate file).value = ⟨some secret, c.identity.comment⟩ := by
      rw [← hsecret, hcomment]
    obtain ⟨hparsed, hprivate⟩ := Suite.loadPrivate_eq_some_iff.mp hloaded
    rw [fits, beq_iff_eq, hidentity] at hfits
    exact ⟨secret, hparsed, hprivate, hpublic, hidentity, hbinary, hsniffed, hdecoded, hfits⟩
  · intro h
    obtain ⟨secret, h⟩ := h
    have hloaded := h.loadPrivate_value
    have hidentity : (Identity.ofPrivate s (s.loadPrivate file).value).value = some c.identity :=
      Identity.ofPrivate_eq_some_iff.mpr
        ⟨secret, by rw [hloaded], h.acceptsPublic, by rw [hloaded]; exact h.identity⟩
    refine ⟨by rw [hloaded]; rfl, .binary c.blob, h.binary,
      combine_eq_ok_iff.mpr ⟨rfl, h.sniffed, h.decoded, hidentity⟩, ?_⟩
    rw [fits, beq_iff_eq, h.identity]
    exact h.certified

/-- All that loading asks of a source is the certificate in it. -/
theorem load_congr {a b : Certificate.Source} (h : a.toBinary = b.toBinary) (s : Suite)
    (file : Bytes) : load s file a = load s file b := by
  unfold load
  rw [h]

end SshCert.Login.Credential

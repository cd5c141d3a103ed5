import SshCert.Proofs.Certificate.Issuing
import SshCert.Proofs.Key.Identity
import SshCert.Proofs.Login.Credential

/-
  Signatures in their blobs.
  What an identity signs is a raw signature of its suite in a blob, and what it verifies is such a
  blob. `Identity.Wraps` says that the blob adds nothing and takes nothing away: there is one
  wherever there is a raw signature, it names the algorithm, and the identity says of it what the
  suite says of the raw signature. This holds of every identity (`Identity.Made.wraps`) and of every
  credential around one (`sign_wraps`).
-/

namespace SshCert

open Wire

namespace Identity

/-- The hint names an algorithm of the key. An empty hint stands for the name of the key. -/
def Selects (i : Identity) (hint : Bytes) (t : SignatureType) : Prop :=
  t.name = (if hint = [] then i.key.type.name else hint) ∧ i.key.type.makes t = true

/-- The identity has a private half, and this is what the suite signs with it. -/
def SignsRaw (i : Identity) (s : Suite) (t : SignatureType) (message : Bytes)
    (random : RandomSource) (raw : Bytes) : Prop :=
  ∃ secret, i.private? = some secret ∧ s.sign secret t message random = some raw

/-- Signing with the hint and verifying do to blobs what the suite does to raw signatures. -/
structure Wraps (i : Identity) (s : Suite) (hint message : Bytes) (random : RandomSource) :
    Prop where
  /-- There is a blob exactly if there is a raw signature to put into it. -/
  isSome_iff : (i.sign s hint message random).value.isSome = true ↔
    ∃ t raw, i.Selects hint t ∧ i.SignsRaw s t message random raw
  /-- The blob is read back, and it verifies under the right names as the raw signature does. -/
  blob : ∀ t raw, i.Selects hint t → i.SignsRaw s t message random raw →
    ∃ blob signature, (i.sign s hint message random).value = some blob ∧ blob ≠ [] ∧
      SignatureBlob.parse blob = some signature ∧
      signature.type? = some t ∧ signature.algorithm = t.name ∧
      i.verify s hint message blob = s.verify i.key t message raw ∧
      i.verify s [] message blob = s.verify i.key t message raw ∧
      ∀ other, other ≠ [] → other ≠ t.name → i.verify s other message blob = false

variable {s : Suite} {i : Identity} {hint message : Bytes} {random : RandomSource}

theorem sign_isSome_iff (hi : i.Made s) :
    (i.sign s hint message random).value.isSome = true ↔
      ∃ t raw, i.Selects hint t ∧ i.SignsRaw s t message random raw := by
  rw [Option.isSome_iff_exists]
  constructor
  · rintro ⟨blob, hsign⟩
    obtain ⟨secret, t, raw, hsecret, ht, hraw, -⟩ := hi.sign_eq_some_iff.mp hsign
    exact ⟨t, raw, KeyType.signatureFor?_eq_some_iff.mp ht, secret, hsecret, hraw⟩
  · rintro ⟨t, raw, ht, secret, hsecret, hraw⟩
    exact ⟨_, hi.sign_eq_some_iff.mpr
      ⟨secret, t, raw, hsecret, KeyType.signatureFor?_eq_some_iff.mpr ht, hraw, rfl⟩⟩

theorem SignsRaw.length_raw (hs : s.SignsInHalves) (hi : i.Made s) {t : SignatureType} {raw : Bytes}
    (hmakes : i.key.type.makes t = true) (h : i.SignsRaw s t message random raw) (c : Curve)
    (ht : t = .ecdsa c) : raw.length = 2 * c.coordinateSize := by
  obtain ⟨secret, hsecret, hraw⟩ := h
  rw [← hi.type_eq hsecret] at hmakes
  exact hs.length_raw hmakes hraw c ht

theorem Made.wraps (hs : s.SignsInHalves) (hi : i.Made s)
    (hfits : ∀ t raw, i.Selects hint t → i.SignsRaw s t message random raw → Fits raw) :
    i.Wraps s hint message random := by
  refine ⟨sign_isSome_iff hi, fun t raw ht hsigns => ?_⟩
  have hlength := hsigns.length_raw hs hi ht.2
  have hraw := hfits t raw ht hsigns
  have hverify (name : Bytes) : i.verify s name message (SignatureBlob.ofRaw t raw).encode =
      ((name.isEmpty || t.name == name) && s.verify i.key t message raw) :=
    verify_ofRaw ht.2 hlength hraw
  have hsign : (i.sign s hint message random).value = some (SignatureBlob.ofRaw t raw).encode := by
    obtain ⟨secret, hsecret, hraw⟩ := hsigns
    exact hi.sign_eq_some_iff.mpr
      ⟨secret, t, raw, hsecret, KeyType.signatureFor?_eq_some_iff.mpr ht, hraw, rfl⟩
  have hnamed : (hint.isEmpty || t.name == hint) = true := by
    have hname := ht.1
    by_cases hempty : hint = []
    · simp [hempty]
    · simp [hname, hempty]
  refine ⟨_, SignatureBlob.ofRaw t raw, hsign, ?_, ?_, t.ofName?_name, rfl, ?_, ?_, ?_⟩
  · rw [SignatureBlob.encode_eq]
    exact List.append_ne_nil_of_left_ne_nil (encodeString_ne_nil _) _
  · exact SignatureBlob.parse_ofRaw_of_fits_payload
      (SignatureBlob.fits_payload_ofRaw hraw hlength)
  · rw [hverify, hnamed, Bool.true_and]
  · rw [hverify]
    exact Bool.true_and _
  · intro other hne hother
    have hrefused : (other.isEmpty || t.name == other) = false := by
      simp [hne, Ne.symm hother]
    rw [hverify, hrefused, Bool.false_and]

end Identity

/-! ## The authority as a signer -/

namespace Identity.Sample

open Certificate.Sample

/-- The identity of an authority. -/
def signer : Identity := ⟨authority, some secret, []⟩

theorem made_signer : signer.Made Suite.standard := by
  obtain ⟨haccepts, hpublic⟩ := Suite.publicOf_eq_some_iff.mp publicOf_secret
  have hmade : (ofPrivate Suite.standard ⟨some secret, []⟩).value = some signer :=
    ofPrivate_eq_some_iff.mpr ⟨secret, rfl, haccepts, by rw [hpublic]; rfl⟩
  exact .ofPrivate hmade

theorem signsRaw_signer :
    signer.SignsRaw Suite.standard .rsaSha1 dss.fields.encode random dss.raw :=
  ⟨secret, rfl, dss.sign_fields⟩

/-- An RSA identity signs with its oldest algorithm if it is not told which one. -/
theorem selects_nil_iff {t : SignatureType} : signer.Selects [] t ↔ t = .rsaSha1 := by
  constructor
  · intro h
    have hname : t.name = SignatureType.rsaSha1.name := h.1
    exact SignatureType.eq_of_name_eq hname
  · rintro rfl
    exact ⟨rfl, rfl⟩

theorem combine_signer :
    Login.Credential.combine (some signer) (.binary dss.blob) =
      .ok ⟨signer, dss.certificate, dss.blob⟩ :=
  Login.Credential.combine_eq_ok_iff.mpr ⟨rfl, isCertificate_dss, dss.decode_blob, rfl⟩

end Identity.Sample

/-! ## Identities and credentials -/

namespace Login

open Identity.Sample Certificate.Sample

/-- An identity signs exactly if it has a private half, the hint selects an algorithm of its key and
the suite gives a raw signature. The blob of the signature names the algorithm. Under this name and
under none it verifies as the raw signature does, and under every other name it does not. The raw
signature has to fit a string, and for ECDSA it has two halves. Credentials sign and verify with the
identity they were made of. -/
theorem sign_wraps {s : Suite} (hs : s.SignsInHalves) {i : Identity} (hi : i.Made s)
    {hint message : Bytes} {random : RandomSource}
    (hfits : ∀ t raw, i.Selects hint t → i.SignsRaw s t message random raw → Fits raw) :
    i.Wraps s hint message random ∧
      ∀ source c, Credential.combine (some i) source = .ok c →
        c.identity.Wraps s hint message random := by
  have hwraps := hi.wraps hs hfits
  refine ⟨hwraps, fun source c hcombine => ?_⟩
  obtain ⟨-, -, -, hidentity⟩ := Credential.combine_eq_ok_iff.mp hcombine
  rw [← Option.some.inj hidentity]
  exact hwraps

/-- The authority signs without a hint. What it signs verifies without a name, also through a
credential, and not under the name of a newer algorithm. -/
theorem sign_wraps_rsa :
    ∃ blob, (signer.sign Suite.standard [] dss.fields.encode random).value = some blob ∧
      signer.verify Suite.standard [] dss.fields.encode blob = true ∧
      signer.verify Suite.standard (ascii "rsa-sha2-256") dss.fields.encode blob = false ∧
      Suite.standard.SignsInHalves ∧ signer.Made Suite.standard ∧
      Identity.Wraps (Credential.mk signer dss.certificate dss.blob).identity Suite.standard []
        dss.fields.encode random := by
  have hfits (t : SignatureType) (raw : Bytes) (ht : signer.Selects [] t)
      (hsigns : signer.SignsRaw Suite.standard t dss.fields.encode random raw) : Fits raw := by
    obtain rfl := selects_nil_iff.mp ht
    obtain ⟨secret', hsecret, hraw⟩ := hsigns
    cases hsecret
    rw [dss.sign_fields] at hraw
    cases hraw
    decide
  obtain ⟨hwraps, hcredential⟩ := sign_wraps Suite.signsInHalves_standard made_signer hfits
  obtain ⟨blob, signature, hsign, -, -, -, -, -, hverify, hother⟩ :=
    hwraps.blob _ _ (selects_nil_iff.mpr rfl) signsRaw_signer
  refine ⟨blob, hsign, hverify.trans dss.verify_raw, hother _ (by decide) (by decide),
    Suite.signsInHalves_standard, made_signer, hcredential _ _ combine_signer⟩

end Login

end SshCert

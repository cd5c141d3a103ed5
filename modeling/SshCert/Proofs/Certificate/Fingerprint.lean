import SshCert.Proofs.Certificate.Issuing
import SshCert.Proofs.Key.NormalForm
import SshCert.Proofs.Text.Base64
import SshCert.Proofs.Wire.Writing

/-
  Fingerprints of keys and of authorities.
  The fingerprint of a key is hashed while the key is written, that of an authority over its key
  as it stands in the certificate. Both are the text of one digest, that of the blob
  (`Suite.fingerprint_eq`), and the text shows the whole digest
  (`Suite.fingerprintText_injective`). So the two agree where the certificate holds the key as it
  is written, and as far as the hash keeps blobs apart, equal fingerprints stand for equal bytes
  in certificates (`fingerprint_agrees`) and for equal keys that were loaded
  (`Suite.fingerprint_eq_iff`).
-/

namespace SshCert

open Wire

namespace Suite

/-- The messages have different digests, unless they are the same. -/
def CollisionFreeOn (s : Suite) (h : HashType) (a b : Bytes) : Prop :=
  s.digest h [a] = s.digest h [b] → a = b

theorem fingerprintText_injective : Function.Injective fingerprintText := by
  intro a b h
  exact Base64.encodeUnpadded_injective (List.append_cancel_left h)

/-- A key that is hashed as it is written has the digest of its blob. -/
theorem fingerprint_eq {s : Suite} (hs : s.DigestsWhole) (k : PublicKey) :
    s.fingerprint k = fingerprintText (s.digest .sha256 [k.encode]) := by
  rw [fingerprint, digest_writeAll hs, List.flatten_nil, List.nil_append]
  rfl

/-- Fingerprints show as much of messages as their digests do. -/
theorem CollisionFreeOn.fingerprintText_eq_iff {s : Suite} {a b : Bytes}
    (h : s.CollisionFreeOn .sha256 a b) :
    fingerprintText (s.digest .sha256 [a]) = fingerprintText (s.digest .sha256 [b]) ↔ a = b := by
  rw [fingerprintText_injective.eq_iff]
  exact ⟨h, fun hab => by rw [hab]⟩

/-- Keys that are loaded and have one fingerprint are the same key, where the hash keeps their blobs
apart. -/
theorem fingerprint_eq_iff {s : Suite} (hs : s.DigestsWhole) {b₁ b₂ : Bytes} (hb₁ : Fits b₁)
    (hb₂ : Fits b₂) {k₁ k₂ : PublicKey} (h₁ : (s.loadPublic b₁).value = some k₁)
    (h₂ : (s.loadPublic b₂).value = some k₂)
    (hfree : s.CollisionFreeOn .sha256 k₁.encode k₂.encode) :
    s.fingerprint k₁ = s.fingerprint k₂ ↔ k₁ = k₂ := by
  rw [fingerprint_eq hs, fingerprint_eq hs, hfree.fingerprintText_eq_iff]
  constructor
  · intro hencode
    have hparse₁ := PublicKey.parse_encode_of_parse hb₁ (loadPublic_eq_some_iff.mp h₁).1
    have hparse₂ := PublicKey.parse_encode_of_parse hb₂ (loadPublic_eq_some_iff.mp h₂).1
    rw [hencode, hparse₂] at hparse₁
    exact (Except.ok.inj hparse₁).symm
  · exact congrArg PublicKey.encode

end Suite

namespace Certificate

/-- The fingerprint of a key is the text of the digest of its blob. The authority of a certificate
has the fingerprint of its key if the key is written in the certificate as it is written alone, and
where the hash keeps two writings apart, only then. Two authorities have one fingerprint exactly if
their keys, as they are written, have one digest: so if they are written alike, and where the hash
keeps them apart only then. -/
theorem fingerprint_agrees (s : Suite) :
    (s.DigestsWhole → ∀ k : PublicKey,
      s.fingerprint k = ascii "SHA256:" ++ Base64.encodeUnpadded (s.digest .sha256 [k.encode])) ∧
    (s.DigestsWhole → ∀ (c : Certificate) (k : PublicKey), (c.authorityKey s).value = some k →
      (c.signatureKey = k.encode → c.authorityFingerprint s = s.fingerprint k) ∧
      (s.CollisionFreeOn .sha256 c.signatureKey k.encode →
        c.authorityFingerprint s = s.fingerprint k → c.signatureKey = k.encode)) ∧
    ∀ c₁ c₂ : Certificate,
      (c₁.authorityFingerprint s = c₂.authorityFingerprint s ↔
        s.digest .sha256 [c₁.signatureKey] = s.digest .sha256 [c₂.signatureKey]) ∧
      (c₁.signatureKey = c₂.signatureKey →
        c₁.authorityFingerprint s = c₂.authorityFingerprint s) ∧
      (s.CollisionFreeOn .sha256 c₁.signatureKey c₂.signatureKey →
        c₁.authorityFingerprint s = c₂.authorityFingerprint s →
          c₁.signatureKey = c₂.signatureKey) := by
  refine ⟨fun hs => Suite.fingerprint_eq hs, fun hs c k _ => ?_, fun c₁ c₂ => ?_⟩
  · rw [Suite.fingerprint_eq hs, authorityFingerprint]
    exact ⟨fun h => by rw [h], fun hfree => hfree.fingerprintText_eq_iff.mp⟩
  · rw [authorityFingerprint, authorityFingerprint]
    exact ⟨Suite.fingerprintText_injective.eq_iff, fun h => by rw [h],
      fun hfree => hfree.fingerprintText_eq_iff.mp⟩

namespace Sample

/-- A certificate with the bytes for the key of its authority. -/
def signedWith (signatureKey : Bytes) : Certificate := { dss.certificate with signatureKey }

theorem authorityKey_blob :
    ((signedWith Suite.Sample.blob).authorityKey Suite.standard).value =
      some Suite.Sample.key :=
  (authorityKey_value _ _).trans Suite.Sample.loadPublic_blob

theorem authorityKey_encode :
    ((signedWith Suite.Sample.key.encode).authorityKey Suite.standard).value =
      some Suite.Sample.key := by
  have hparse : PublicKey.parse (Suite.Sample.key.encode ++ []) = .ok Suite.Sample.key :=
    PublicKey.parse_encode_append (by decide) (by decide) []
  rw [List.append_nil] at hparse
  obtain ⟨-, haccepts⟩ := Suite.loadPublic_eq_some_iff.mp Suite.Sample.loadPublic_blob
  exact (authorityKey_value _ _).trans (Suite.loadPublic_eq_some_iff.mpr ⟨hparse, haccepts⟩)

theorem digest_writings :
    HashType.sha256.digest Suite.Sample.key.encode =
        Bytes.ofNat 32 0xbdc7a7fbec66e2751328721e39a48b570344c324e563345247ac671a65459877 ∧
      HashType.sha256.digest Suite.Sample.blob =
        Bytes.ofNat 32 0x69ecfca438d72878c225dbe0c5629022f7feb260c556cb1d87fde203be923a54 := by
  decide +kernel

theorem collisionFreeOn_blob :
    Suite.standard.CollisionFreeOn .sha256 Suite.Sample.blob Suite.Sample.key.encode := by
  intro h
  have hdigests : HashType.sha256.digest Suite.Sample.blob =
      HashType.sha256.digest Suite.Sample.key.encode := h
  rw [digest_writings.1, digest_writings.2] at hdigests
  exact absurd hdigests (by decide)

end Sample

/-- A key whose fingerprint is that of one authority, and an authority that holds the same key
written otherwise. -/
theorem fingerprint_agrees_rewritten :
    let s := Suite.standard
    let c₁ := Sample.signedWith Suite.Sample.key.encode
    let c₂ := Sample.signedWith Suite.Sample.blob
    s.DigestsWhole ∧
      s.fingerprint Suite.Sample.key =
        ascii "SHA256:vcen++xm4nUTKHIeOaSLVwNEwyTlYzRSR6xnGmVFmHc" ∧
      (c₁.authorityKey s).value = some Suite.Sample.key ∧
      (c₂.authorityKey s).value = some Suite.Sample.key ∧
      c₁.authorityFingerprint s = s.fingerprint Suite.Sample.key ∧
      c₂.authorityFingerprint s ≠ s.fingerprint Suite.Sample.key ∧
      c₂.authorityFingerprint s ≠ c₁.authorityFingerprint s := by
  intro s c₁ c₂
  have hs : s.DigestsWhole := Suite.digestsWhole_standard
  have hfree := Sample.collisionFreeOn_blob
  have hne : Suite.Sample.blob ≠ Suite.Sample.key.encode := by decide
  obtain ⟨hkey, hauthority, hpair⟩ := fingerprint_agrees s
  obtain ⟨hsame, -⟩ := hauthority hs c₁ _ Sample.authorityKey_encode
  obtain ⟨-, honly⟩ := hauthority hs c₂ _ Sample.authorityKey_blob
  obtain ⟨-, -, honly'⟩ := hpair c₂ c₁
  refine ⟨hs, ?_, Sample.authorityKey_encode, Sample.authorityKey_blob, hsame rfl,
    fun h => hne (honly hfree h), fun h => hne (honly' hfree h)⟩
  have hdigest : s.digest .sha256 [Suite.Sample.key.encode] = Bytes.ofNat 32 _ :=
    Sample.digest_writings.1
  rw [hkey hs, hdigest]
  decide

end Certificate

end SshCert

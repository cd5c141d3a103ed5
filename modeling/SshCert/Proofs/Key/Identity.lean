import SshCert.Key.Identity
import SshCert.Proofs.Key.Signature
import SshCert.Proofs.Suite.Admission

/-
  What identities sign and verify.
  An identity is made of a loaded private key or of a public key (`Identity.Made`). It signs exactly
  if it has a private half, the hint selects an algorithm of the key, and the suite gives a raw
  signature (`Identity.Made.sign_eq_some_iff`). Of such a signature it says what the suite says of
  the raw one, under the name of its algorithm and under no name, and refuses it under every other
  name (`Identity.verify_ofRaw`).
-/

namespace SshCert.Identity

open Wire

variable {s : Suite} {i : Identity} {hint message : Bytes}

/-! ## Which identities there are -/

/-- The identity was made of a loaded private key, or of a public key alone. -/
inductive Made (s : Suite) : Identity → Prop
  | ofPrivate {loaded : LoadedKey} {i : Identity} :
      (Identity.ofPrivate s loaded).value = some i → Made s i
  | ofPublic {key? : Option PublicKey} {comment : Bytes} {i : Identity} :
      Identity.ofPublic key? comment = some i → Made s i

theorem ofPrivate_eq_some_iff {loaded : LoadedKey} :
    (ofPrivate s loaded).value = some i ↔
      ∃ secret, loaded.key? = some secret ∧ s.acceptsPublic secret.publicHalf = true ∧
        i = ⟨secret.publicHalf, some secret, loaded.comment⟩ := by
  unfold ofPrivate
  cases loaded.key? with
  | none =>
    constructor
    · intro h
      cases h
    · intro h
      obtain ⟨secret, hsecret, -⟩ := h
      cases hsecret
  | some secret =>
    dsimp only
    rw [Logged.value_bind, Logged.value_pure, Suite.publicOf, Suite.admitPublic_value,
      Option.map_eq_some_iff]
    constructor
    · intro h
      obtain ⟨key, hkey, rfl⟩ := h
      obtain ⟨haccepts, hkey⟩ := Option.ite_none_right_eq_some.mp hkey
      cases hkey
      exact ⟨secret, rfl, haccepts, rfl⟩
    · intro h
      obtain ⟨secret', hsecret, haccepts, rfl⟩ := h
      cases hsecret
      rw [if_pos haccepts]
      exact ⟨_, rfl, rfl⟩

/-- The key of an identity is the public half of its private key. -/
theorem Made.publicHalf_eq (h : i.Made s) {secret : PrivateKey}
    (hsecret : i.private? = some secret) : secret.publicHalf = i.key := by
  cases h with
  | ofPrivate h =>
    obtain ⟨secret', -, -, rfl⟩ := ofPrivate_eq_some_iff.mp h
    cases hsecret
    rfl
  | ofPublic h =>
    obtain ⟨key, -, rfl⟩ := Option.map_eq_some_iff.mp h
    cases hsecret

theorem Made.type_eq (h : i.Made s) {secret : PrivateKey} (hsecret : i.private? = some secret) :
    secret.type = i.key.type := by
  rw [← secret.type_publicHalf, h.publicHalf_eq hsecret]

/-! ## Signing -/

theorem Made.sign_eq_some_iff (h : i.Made s) {random : RandomSource} {blob : Bytes} :
    (i.sign s hint message random).value = some blob ↔
      ∃ secret t raw, i.private? = some secret ∧ i.key.type.signatureFor? hint = some t ∧
        s.sign secret t message random = some raw ∧
        blob = (SignatureBlob.ofRaw t raw).encode := by
  unfold sign
  constructor
  · intro hsign
    split at hsign
    · next secret t hsecret ht =>
      obtain ⟨-, raw, hraw, hblob⟩ := Suite.signBlob_eq_some_iff.mp hsign
      exact ⟨secret, t, raw, hsecret, ht, hraw, hblob⟩
    · cases hsign
  · rintro ⟨secret, t, raw, hsecret, ht, hraw, hblob⟩
    have hmakes : secret.type.makes t = true := by
      rw [h.type_eq hsecret]
      exact (KeyType.signatureFor?_eq_some ht).1
    rw [hsecret, ht]
    exact Suite.signBlob_eq_some_iff.mpr ⟨hmakes, raw, hraw, hblob⟩

/-! ## Verifying -/

/-- A wrapped raw signature verifies under the name of its algorithm and under no name, wherever the
raw signature does. -/
theorem verify_ofRaw {t : SignatureType} {raw : Bytes} (hmakes : i.key.type.makes t = true)
    (hraw : ∀ c, t = .ecdsa c → raw.length = 2 * c.coordinateSize) (hfits : Fits raw) :
    i.verify s hint message (SignatureBlob.ofRaw t raw).encode =
      ((hint.isEmpty || t.name == hint) && s.verify i.key t message raw) := by
  have hpayload := SignatureBlob.fits_payload_ofRaw hfits hraw
  unfold verify
  rw [SignatureBlob.parse_ofRaw_of_fits_payload hpayload,
    Suite.verifyBlob_ofRaw hmakes hraw hpayload]
  rfl

end SshCert.Identity

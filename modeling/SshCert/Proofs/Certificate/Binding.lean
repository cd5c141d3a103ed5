import SshCert.Certificate.Authority
import SshCert.Proofs.Certificate.Layout

/-
  What the signature of an authority covers.
  The decoder walks the data from the front and ignores what follows the signature, while
  `signedPart` cuts the signature off at the end. `SignedBy` says what is handed to the key of the
  authority. It begins with the layout of the certificate wherever the decoder stopped
  (`SignedBy.layout`), so the signed message alone decides every field but the signature
  (`verifySignature_binds`).
-/

namespace SshCert.Certificate

open Wire

/-! ## The keys of a certificate -/

theorem authorityKey_value (s : Suite) (c : Certificate) :
    (c.authorityKey s).value = (s.loadPublic c.signatureKey).value := by
  unfold authorityKey
  rw [Logged.value_bind, Logged.value_ite, Logged.value_bind, Logged.value_pure, ite_self]

theorem certifiedKey_value (s : Suite) (c : Certificate) :
    (c.certifiedKey s).value = (s.loadPublic c.certifiedBlob).value := by
  unfold certifiedKey
  rw [Logged.value_bind, Logged.value_ite, Logged.value_bind, Logged.value_pure, ite_self]

/-! ## The signed message -/

/-- The signed part is the data without a signature field at its end. -/
theorem signedPart_eq_ok_iff {c : Certificate} {data message : Bytes} (hsig : Fits c.signature) :
    c.signedPart data = .ok message ↔ data = message ++ encodeString c.signature := by
  have hlen := length_encodeString c.signature
  unfold signedPart
  dsimp only
  split
  · next hsmall =>
    refine ⟨nofun, fun h => ?_⟩
    rw [h, List.length_append] at hsmall
    omega
  · next hlarge =>
    split
    · next hend =>
      have hdrop := (string_eq_some_iff.mp hend).2
      rw [List.append_nil] at hdrop
      constructor
      · intro h
        rw [← Except.ok.inj h, ← hdrop, List.take_append_drop]
      · intro h
        have hcut : data.length - (4 + c.signature.length) = message.length := by
          rw [h, List.length_append]
          omega
        rw [hcut, h, List.take_left]
    · next hend =>
      refine ⟨nofun, fun h => absurd ?_ hend⟩
      have hcut : data.length - (4 + c.signature.length) = message.length := by
        rw [h, List.length_append]
        omega
      rw [hcut, h, List.drop_left]
      exact string_eq_some_iff.mpr ⟨hsig, (List.append_nil _).symm⟩

/-- The data is the message and the signature behind it, and the key of the authority, which can
be loaded, verifies the signature over the message. -/
structure SignedBy (s : Suite) (c : Certificate) (data message : Bytes) : Prop where
  data_eq : data = message ++ encodeString c.signature
  verified : ∃ key, (c.authorityKey s).value = some key ∧
    s.verifyBlob key message c.signature = true

theorem verifySignature_value (s : Suite) (c : Certificate) (data : Bytes) :
    (c.verifySignature s data).value =
      match c.signedPart data with
      | .error _ => false
      | .ok message => (c.authorityKey s).value.any (s.verifyBlob · message c.signature) := by
  unfold verifySignature
  cases c.signedPart data with
  | error e => rfl
  | ok message =>
    dsimp only
    rw [Logged.value_bind]
    cases (c.authorityKey s).value with
    | none => rfl
    | some key =>
      dsimp only
      rw [Logged.value_ite, Logged.value_bind, Logged.value_pure, ite_self]
      rfl

theorem verifySignature_eq_true_iff {s : Suite} {c : Certificate} {data : Bytes}
    (hsig : Fits c.signature) :
    (c.verifySignature s data).value = true ↔ ∃ message, c.SignedBy s data message := by
  rw [verifySignature_value]
  constructor
  · intro h
    split at h
    · cases h
    · next message hpart =>
      obtain ⟨key, hkey, hverified⟩ := (Option.any_eq_true _ _).mp h
      exact ⟨message, (signedPart_eq_ok_iff hsig).mp hpart, key, hkey, hverified⟩
  · intro h
    obtain ⟨message, hdata, key, hkey, hverified⟩ := h
    rw [(signedPart_eq_ok_iff hsig).mpr hdata]
    dsimp only
    rw [hkey]
    exact hverified

/-! ## What it binds -/

/-- The signed message begins with the layout of the certificate. -/
theorem SignedBy.layout {s : Suite} {c : Certificate} {data message : Bytes}
    (hdecode : decode data = .ok c) (hsigned : c.SignedBy s data message) :
    ∃ (l : Layout) (rest : Bytes), l.WellFormed ∧ c = l.certificate c.signature ∧
      message = l.encode ++ rest := by
  obtain ⟨l, signature, tail, hwf, -, rfl, hdata⟩ := decode_eq_ok_iff.mp hdecode
  have hends : message ++ encodeString signature = l.encode ++ (encodeString signature ++ tail) :=
    hsigned.data_eq.symm.trans hdata
  -- what the verifier cuts off is no longer than what stands behind the layout
  have hle : l.encode.length ≤ message.length := by
    have hlen := congrArg List.length hends
    simp only [List.length_append] at hlen
    omega
  have hprefix : l.encode <+: message :=
    List.prefix_of_prefix_length_le ⟨_, hends.symm⟩ (List.prefix_append _ _) hle
  obtain ⟨rest, hrest⟩ := hprefix
  exact ⟨l, rest, hwf, rfl, hrest.symm⟩

/-- Where the signatures of two certificates verify, each over its own message, equal messages
mean equal certificates up to the signature, whatever the keys accept and whatever stands behind
the signatures. -/
theorem verifySignature_binds {s₁ s₂ : Suite} {data₁ data₂ : Bytes} {c₁ c₂ : Certificate}
    (hdecode₁ : decode data₁ = .ok c₁) (hdecode₂ : decode data₂ = .ok c₂)
    (hverify₁ : (c₁.verifySignature s₁ data₁).value = true)
    (hverify₂ : (c₂.verifySignature s₂ data₂).value = true) :
    ∃ message₁ message₂, c₁.SignedBy s₁ data₁ message₁ ∧ c₂.SignedBy s₂ data₂ message₂ ∧
      (message₁ = message₂ → c₁ = { c₂ with signature := c₁.signature }) := by
  obtain ⟨message₁, signed₁⟩ :=
    (verifySignature_eq_true_iff (fits_signature hdecode₁)).mp hverify₁
  obtain ⟨message₂, signed₂⟩ :=
    (verifySignature_eq_true_iff (fits_signature hdecode₂)).mp hverify₂
  refine ⟨message₁, message₂, signed₁, signed₂, fun hmessage => ?_⟩
  obtain ⟨l₁, rest₁, hwf₁, hc₁, hmessage₁⟩ := signed₁.layout hdecode₁
  obtain ⟨l₂, rest₂, hwf₂, hc₂, hmessage₂⟩ := signed₂.layout hdecode₂
  have hfields : l₁.encode ++ rest₁ = l₂.encode ++ rest₂ := by
    rw [← hmessage₁, ← hmessage₂, hmessage]
  have hl : l₁ = l₂ := (Layout.encode_append_inj hwf₁ hwf₂ hfields).1
  rw [hc₁, hc₂, hl]
  rfl

/-- A suite in which every signature verifies. -/
def credulous : Suite where
  digest _ _ := []
  acceptsPublic _ := true
  acceptsPrivate _ := true
  verify _ _ _ _ := true
  sign _ _ _ _ := some []
  ed25519Public seed := seed

/-- One certificate under two signatures, both of which verify. -/
theorem verifySignature_binds_resigned :
    let authority := PublicKey.ed25519 (List.replicate 32 9)
    let l : Layout := {
      algorithm := ascii "ssh-ed25519-cert-v01@openssh.com", nonce := [1, 2, 3]
      key := [List.replicate 32 5], serial := 7, typeCode := 1, keyId := ascii "ann"
      principals := [ascii "ann", ascii "root"], validAfter := 0, validBefore := 9
      criticalOptions := [], extensions := [(ascii "permit-pty", [])], reserved := []
      signatureKey := authority.encode }
    let signature₁ := (SignatureBlob.mk (ascii "ssh-ed25519") [4]).encode
    let signature₂ := (SignatureBlob.mk (ascii "ssh-ed25519") [6, 6]).encode
    let c₁ := l.certificate signature₁
    let c₂ := l.certificate signature₂
    let data₁ := l.encode ++ encodeString signature₁
    let data₂ := l.encode ++ encodeString signature₂
    decode data₁ = .ok c₁ ∧ decode data₂ = .ok c₂ ∧
      (c₁.verifySignature credulous data₁).value = true ∧
      (c₂.verifySignature credulous data₂).value = true ∧
      ∃ message₁ message₂, c₁.SignedBy credulous data₁ message₁ ∧
        c₂.SignedBy credulous data₂ message₂ ∧
        (message₁ = message₂ → c₁ = { c₂ with signature := c₁.signature }) := by
  intro authority l signature₁ signature₂ c₁ c₂ data₁ data₂
  have hwf : l.WellFormed := by
    refine ⟨⟨.ed25519, ?_, ?_⟩, ?_, ?_, ?_, ?_, ?_, ?_, ?_, ?_, ?_⟩ <;> decide
  have hdecode₁ : decode data₁ = .ok c₁ :=
    decode_eq_ok_iff.mpr ⟨l, signature₁, [], hwf, by decide, rfl, by rw [List.append_nil]⟩
  have hdecode₂ : decode data₂ = .ok c₂ :=
    decode_eq_ok_iff.mpr ⟨l, signature₂, [], hwf, by decide, rfl, by rw [List.append_nil]⟩
  have hverify₁ : (c₁.verifySignature credulous data₁).value = true :=
    (verifySignature_eq_true_iff (by decide)).mpr ⟨l.encode, rfl, authority, by decide, by decide⟩
  have hverify₂ : (c₂.verifySignature credulous data₂).value = true :=
    (verifySignature_eq_true_iff (by decide)).mpr ⟨l.encode, rfl, authority, by decide, by decide⟩
  exact ⟨hdecode₁, hdecode₂, hverify₁, hverify₂,
    verifySignature_binds hdecode₁ hdecode₂ hverify₁ hverify₂⟩

end SshCert.Certificate

import SshCert.Login.Server
import SshCert.Proofs.Certificate.Binding
import SshCert.Proofs.Certificate.Validity

/-
  What the server's checks amount to.
  `Vetted` collects what the certificate of a request has to fulfil and `ProvesPossession` what
  its signature has to. A check that passes is one of these predicates and nothing else
  (`vet_eq_ok_iff`, `checkSignature_eq_ok_iff`), and `authenticate_eq_succeeded_iff` puts them
  together: the log lines on the way decide nothing.
-/

namespace SshCert.Login

namespace Server

variable {v : Server} {now : UInt64} {c : Certificate}

/-! ## The certificate -/

/-- The certificate of a request passes every check that does not need the signature. -/
structure Vetted (v : Server) (head : Head) (c : Certificate) (now : UInt64) : Prop where
  algorithm : requestNameFits head.algorithm c.algorithm = true
  user : c.type = .user
  signed : (c.verifySignature v.suite head.blob).value = true
  trusted : v.trusts c (c.authorityFingerprint v.suite) = true
  valid : c.ValidFor v.policy head.user now

/-- A check that refuses is passed if it does not apply. -/
theorem refusing_eq_ok_iff {α : Type} {p : Prop} [Decidable p] {why : Refusal}
    {x : Except Refusal α} {a : α} : (if p then .error why else x) = .ok a ↔ ¬ p ∧ x = .ok a := by
  by_cases hp : p
  · rw [if_pos hp]
    exact ⟨nofun, fun h => absurd hp h.1⟩
  · rw [if_neg hp, and_iff_right hp]

theorem vet_eq_ok_iff {head : Head} {fingerprint : Bytes} :
    (v.vet head c now).value = .ok fingerprint ↔
      v.Vetted head c now ∧ fingerprint = c.authorityFingerprint v.suite := by
  unfold vet
  simp only [Logged.value_ite, Logged.value_bind, Logged.value_pure, refusing_eq_ok_iff,
    Bool.not_eq_true', Bool.not_eq_false, Decidable.not_not]
  constructor
  · intro h
    obtain ⟨halgorithm, huser, hsigned, htrusted, h⟩ := h
    split at h
    · cases h
    · next hvalid =>
      cases h
      have hfor := Certificate.invalidity?_eq_none_iff.mp hvalid
      exact ⟨⟨halgorithm, huser, hsigned, htrusted, hfor⟩, rfl⟩
  · intro h
    obtain ⟨hvetted, rfl⟩ := h
    refine ⟨hvetted.algorithm, hvetted.user, hvetted.signed, hvetted.trusted, ?_⟩
    rw [Certificate.invalidity?_eq_none_iff.mpr hvetted.valid]
    rfl

/-! ## The signature -/

/-- The certified key can be loaded, and it made the signature of the request over the message
with the algorithm that the request names. -/
structure ProvesPossession (s : Suite) (c : Certificate) (r : Request) (message : Bytes)
    (key : PublicKey) (signature : SignatureBlob) : Prop where
  loaded : (c.certifiedKey s).value = some key
  parsed : SignatureBlob.parse r.signature = some signature
  algorithm : signature.algorithm = signatureName r.head.algorithm
  verified : s.verifyBlob key message r.signature = true

theorem checkSignature_eq_ok_iff {r : Request} {message : Bytes} :
    (v.checkSignature r c message).value = .ok () ↔
      ∃ key signature, ProvesPossession v.suite c r message key signature := by
  unfold checkSignature
  rw [Logged.value_bind]
  cases hkey : (c.certifiedKey v.suite).value with
  | none =>
    refine ⟨nofun, fun h => ?_⟩
    obtain ⟨key, signature, h⟩ := h
    have hloaded := h.loaded
    rw [hkey] at hloaded
    cases hloaded
  | some key =>
    simp only [Logged.value_ite, Logged.value_pure, refusing_eq_ok_iff, Bool.not_eq_true',
      Bool.not_eq_false, Option.any_eq_true, beq_iff_eq, and_true]
    constructor
    · intro h
      obtain ⟨⟨signature, hparsed, halgorithm⟩, hverified⟩ := h
      exact ⟨key, signature, hkey, hparsed, halgorithm, hverified⟩
    · intro h
      obtain ⟨key', signature, h⟩ := h
      obtain rfl : key' = key := Option.some.inj (h.loaded.symm.trans hkey)
      exact ⟨⟨signature, h.parsed, h.algorithm⟩, h.verified⟩

/-! ## The request -/

/-- The outcome without the lines that are written on the way to it. -/
theorem authenticate_value (v : Server) (session payload : Bytes) (now : UInt64) :
    (v.authenticate session payload now).value =
      match Request.parse payload with
      | none => .notApplicable .notRequest
      | some r =>
        if Certificate.isCertificate r.head.blob = false then .notApplicable .notCertificate
        else
          match Certificate.decode r.head.blob with
          | .error e => .failed (.undecodable e) none
          | .ok c =>
            match (v.vet r.head c now).value with
            | .error why => .failed why (some c)
            | .ok _ =>
              if r.head.isAuth = false then .succeeded true c
              else
                let message := signatureMessage session (payload.take r.signedSize)
                match (v.checkSignature r c message).value with
                | .error why => .failed why (some c)
                | .ok () => .succeeded false c := by
  unfold authenticate
  cases Request.parse payload with
  | none => rfl
  | some r =>
    simp only [Logged.value_ite, Logged.value_bind, Logged.value_pure,
      Certificate.value_decodeLogged, Bool.not_eq_true']
    cases Certificate.decode r.head.blob with
    | error e => rfl
    | ok c =>
      dsimp only
      rw [Logged.value_bind]
      cases (v.vet r.head c now).value with
      | error why => rfl
      | ok fingerprint =>
        dsimp only
        rw [Logged.value_ite]
        by_cases hquery : r.head.isAuth = false
        · rw [if_pos hquery, if_pos hquery]
          rfl
        · rw [if_neg hquery, if_neg hquery, Logged.value_bind]
          cases (v.checkSignature r c _).value with
          | error why => rfl
          | ok u => rfl

/-- Everything that makes a request succeed. A query needs no signature. -/
structure Accepts (v : Server) (session payload : Bytes) (now : UInt64) (r : Request)
    (c : Certificate) : Prop where
  parsed : Request.parse payload = some r
  sniffed : Certificate.isCertificate r.head.blob = true
  decoded : Certificate.decode r.head.blob = .ok c
  vetted : v.Vetted r.head c now
  possession : r.head.isAuth = true → ∃ key signature, ProvesPossession v.suite c r
    (signatureMessage session (payload.take r.signedSize)) key signature

theorem authenticate_eq_succeeded_iff {session payload : Bytes} {query : Bool} :
    (v.authenticate session payload now).value = .succeeded query c ↔
      ∃ r, v.Accepts session payload now r c ∧ r.head.isAuth = !query := by
  rw [authenticate_value]
  constructor
  · intro h
    split at h
    · cases h
    · next r hparse =>
      split at h
      · cases h
      · next hsniff =>
        split at h
        · cases h
        · next c' hdecode =>
          split at h
          · cases h
          · next fingerprint hvet =>
            have hvetted := (vet_eq_ok_iff.mp hvet).1
            split at h
            · next hquery =>
              cases h
              refine ⟨r, ⟨hparse, Bool.not_eq_false _ ▸ hsniff, hdecode, hvetted, ?_⟩, hquery⟩
              intro hauth
              rw [hquery] at hauth
              cases hauth
            · next hauth =>
              dsimp only at h
              split at h
              · cases h
              · next hcheck =>
                cases h
                rw [Bool.not_eq_false] at hauth hsniff
                exact ⟨r, ⟨hparse, hsniff, hdecode, hvetted,
                  fun _ => checkSignature_eq_ok_iff.mp hcheck⟩, hauth⟩
  · intro h
    obtain ⟨r, haccepts, hquery⟩ := h
    have hvet := vet_eq_ok_iff.mpr ⟨haccepts.vetted, rfl⟩
    rw [haccepts.parsed]
    dsimp only
    rw [if_neg (by rw [haccepts.sniffed]; nofun), haccepts.decoded]
    dsimp only
    rw [hvet]
    dsimp only
    cases query with
    | true => exact if_pos hquery
    | false =>
      have hcheck := checkSignature_eq_ok_iff.mpr (haccepts.possession hquery)
      rw [if_neg (by rw [hquery]; nofun), hcheck]

end Server

end SshCert.Login

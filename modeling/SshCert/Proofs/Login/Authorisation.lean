import SshCert.Proofs.Algorithm.RequestName
import SshCert.Proofs.Login.Decision
import SshCert.Proofs.Login.Request

/-
  Who is let in.
  `SignedPayload` is the grammar of a request with a signature and `Authorised` everything that
  such a request and its certificate must fulfil, said without the server. The server lets
  exactly these requests in (`authenticate_succeeds_iff`), for any suite.
-/

namespace SshCert.Login

open Wire

/-! ## Requests with a signature -/

/-- The pieces of a payload with a signature. -/
structure SignedPayload where
  user : Bytes
  service : Bytes
  /-- The byte that says that a signature follows. -/
  flag : UInt8
  algorithm : Bytes
  blob : Bytes
  signature : Bytes
  /-- What stands behind the signature. -/
  tail : Bytes

namespace SignedPayload

/-- The part that is signed. -/
def front (p : SignedPayload) : Bytes :=
  50 :: (encodeString p.user ++ (encodeString p.service ++ (encodeString (ascii "publickey")
    ++ p.flag :: (encodeString p.algorithm ++ encodeString p.blob))))

/-- The whole payload. -/
def bytes (p : SignedPayload) : Bytes := p.front ++ (encodeString p.signature ++ p.tail)

/-- The flag is set, and every string has a length that can be written. -/
structure WellFormed (p : SignedPayload) : Prop where
  flag : p.flag ≠ 0
  user : Fits p.user
  service : Fits p.service
  algorithm : Fits p.algorithm
  blob : Fits p.blob
  signature : Fits p.signature

/-- The request in the payload. -/
def request (p : SignedPayload) : Request where
  head := ⟨p.user, p.service, true, p.algorithm, p.blob⟩
  signature := p.signature
  signedSize := p.front.length

theorem front_eq_wire (p : SignedPayload) : p.front = p.request.head.wire p.flag := by
  rw [← List.append_nil (Head.wire _ _), Head.wire_append, List.append_nil]
  rfl

theorem take_signedSize (p : SignedPayload) : p.bytes.take p.request.signedSize = p.front :=
  List.take_left

end SignedPayload

/-- The requests with a signature that are parsed are the well formed payloads. -/
theorem parse_signed_iff {payload : Bytes} {r : Request} :
    Request.parse payload = some r ∧ r.head.isAuth = true ↔
      ∃ p : SignedPayload, p.WellFormed ∧ payload = p.bytes ∧ r = p.request := by
  rw [Request.parse_eq_some_iff]
  constructor
  · intro h
    obtain ⟨⟨flag, tail, hstands⟩, hauth⟩ := h
    obtain ⟨⟨user, service, isAuth, algorithm, blob⟩, signature, signedSize⟩ := r
    obtain rfl : isAuth = true := hauth
    let p : SignedPayload := ⟨user, service, flag, algorithm, blob, signature, tail⟩
    have hflag : flag ≠ 0 := bne_iff_ne.mp hstands.isAuth.symm
    have hfits := hstands.fits
    refine ⟨p, ⟨hflag, hfits.user, hfits.service, hfits.algorithm, hfits.blob,
      hstands.fitsSignature⟩, ?_, ?_⟩
    · rw [hstands.payload_eq, SignedPayload.bytes, p.front_eq_wire]
      rfl
    · have hsize : signedSize = p.front.length := by
        rw [p.front_eq_wire]
        exact hstands.signedSize
      rw [hsize]
      rfl
  · intro h
    obtain ⟨p, hp, rfl, rfl⟩ := h
    refine ⟨⟨p.flag, p.tail, ⟨hp.user, hp.service, hp.algorithm, hp.blob⟩,
      (bne_iff_ne.mpr hp.flag).symm, congrArg List.length p.front_eq_wire, hp.signature, nofun,
      ?_⟩, rfl⟩
    rw [SignedPayload.bytes, p.front_eq_wire]
    rfl

/-! ## Authorised requests -/

/-- What lets a request in with a certificate. -/
structure Authorised (s : Suite) (config : ServerConfig) (session : Bytes) (now : UInt64)
    (p : SignedPayload) (c : Certificate) : Prop where
  sniffed : Certificate.isCertificate p.blob = true
  decoded : Certificate.decode p.blob = .ok c
  /-- The algorithm is that of the certificate, or a newer RSA signature of its version. -/
  algorithm : p.algorithm = c.algorithm ∨ (ascii "ssh-rsa-cert-v" <+: c.algorithm ∧
    ∃ name, ascii "rsa-sha2-" <+: name ∧ ¬ ascii "-cert-v" <:+: name ∧
      p.algorithm = name ++ c.algorithm.drop (ascii "ssh-rsa").length)
  user : c.type = .user
  /-- The authority signed everything in front of the signature that ends the blob. -/
  signed : ∃ message authority, p.blob = message ++ encodeString c.signature ∧
    (s.loadPublic c.signatureKey).value = some authority ∧
    s.verifyBlob authority message c.signature = true
  trusted : ascii "SHA256:" ++ Base64.encodeUnpadded (s.digest .sha256 [c.signatureKey]) ∈
    config.trusted
  started : c.validAfter = 0 ∨ c.validAfter ≤ now
  notExpired : c.validBefore = 0 ∨ now < c.validBefore
  principal : c.principals = [] ∨ p.user ∈ c.principals
  /-- The certified key signed the session and the front with the algorithm that was named. -/
  possession : ∃ key signature, (s.loadPublic c.certifiedBlob).value = some key ∧
    SignatureBlob.parse p.signature = some signature ∧
    signature.algorithm = plainName p.algorithm ∧
    s.verifyBlob key (encodeString session ++ p.front) p.signature = true

theorem authorised_iff_accepts {s : Suite} {config : ServerConfig} {session : Bytes}
    {now : UInt64} {p : SignedPayload} {c : Certificate} (hp : p.WellFormed) :
    Authorised s config session now p c ↔
      (Server.ofConfig s config).Accepts session p.bytes now p.request c := by
  have hparsed := (parse_signed_iff.mpr ⟨p, hp, rfl, rfl⟩).1
  have hmessage : signatureMessage session (p.bytes.take p.request.signedSize) =
      encodeString session ++ p.front := by
    rw [p.take_signedSize, signatureMessage_eq]
  constructor
  · intro h
    have hsigned : (c.verifySignature s p.blob).value = true := by
      obtain ⟨message, authority, hblob, hloaded, hverified⟩ := h.signed
      rw [← Certificate.authorityKey_value] at hloaded
      exact (Certificate.verifySignature_eq_true_iff (Certificate.fits_signature h.decoded)).mpr
        ⟨message, hblob, authority, hloaded, hverified⟩
    have hvalid : c.ValidFor config.policy p.user now :=
      ⟨h.notExpired, h.started, fun _ => h.principal⟩
    refine ⟨hparsed, h.sniffed, h.decoded, ⟨requestNameFits_iff.mpr h.algorithm, h.user, hsigned,
      List.contains_iff_mem.mpr h.trusted, hvalid⟩, fun _ => ?_⟩
    obtain ⟨key, signature, hloaded, hsignature, halgorithm, hverified⟩ := h.possession
    rw [← Certificate.certifiedKey_value] at hloaded
    exact ⟨key, signature, hloaded, hsignature, halgorithm, hmessage ▸ hverified⟩
  · intro h
    have hvalid := h.vetted.valid
    have huser : c.checksPrincipals config.policy = true := by
      rw [Certificate.checksPrincipals, h.vetted.user]
    obtain ⟨message, hblob, authority, hloaded, hverified⟩ :=
      (Certificate.verifySignature_eq_true_iff (Certificate.fits_signature h.decoded)).mp
        h.vetted.signed
    rw [Certificate.authorityKey_value] at hloaded
    refine ⟨h.sniffed, h.decoded, requestNameFits_iff.mp h.vetted.algorithm, h.vetted.user,
      ⟨message, authority, hblob, hloaded, hverified⟩, List.contains_iff_mem.mp h.vetted.trusted,
      hvalid.started, hvalid.notExpired, hvalid.principal huser, ?_⟩
    obtain ⟨key, signature, hpossession⟩ := h.possession rfl
    refine ⟨key, signature, ?_, hpossession.parsed, hpossession.algorithm, ?_⟩
    · rw [← Certificate.certifiedKey_value]
      exact hpossession.loaded
    · rw [← hmessage]
      exact hpossession.verified

/-- The server lets a request in with a certificate if and only if its payload is that of an
authorised request. -/
theorem authenticate_succeeds_iff (s : Suite) (config : ServerConfig) (session payload : Bytes)
    (now : UInt64) (c : Certificate) :
    ((Server.ofConfig s config).authenticate session payload now).value = .succeeded false c ↔
      ∃ p : SignedPayload, p.WellFormed ∧ payload = p.bytes ∧
        Authorised s config session now p c := by
  rw [Server.authenticate_eq_succeeded_iff]
  constructor
  · intro h
    obtain ⟨r, haccepts, hauth⟩ := h
    obtain ⟨p, hp, rfl, rfl⟩ := parse_signed_iff.mp ⟨haccepts.parsed, hauth⟩
    exact ⟨p, hp, rfl, (authorised_iff_accepts hp).mpr haccepts⟩
  · intro h
    obtain ⟨p, hp, rfl, hauthorised⟩ := h
    exact ⟨p.request, (authorised_iff_accepts hp).mp hauthorised, rfl⟩

end SshCert.Login

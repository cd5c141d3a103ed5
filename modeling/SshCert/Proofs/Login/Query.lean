import SshCert.Proofs.Certificate.Issuing
import SshCert.Proofs.Login.Decision
import SshCert.Proofs.Login.Payload

/-
  Queries and signed requests for the same key.
  Up to the point where a query is answered the server looks at the user, the algorithm and the
  blob of a request and at nothing else. `Server.screen` is that part of the decision, with its
  log lines, and `Server.conclude` is what comes after it (`authenticate_of_parse`). A query and a
  signed request for the same key are therefore screened alike, and where the query is refused the
  signed request ends in the same way and leaves the same lines (`query_agrees`). A query about a
  certificate that can be decoded is answered by the vetting alone
  (`state_query_eq_succeeded_iff`).
-/

namespace SshCert

/-! ## Computations that write lines -/

namespace Logged

instance : LawfulMonad Logged :=
  LawfulMonad.mk' _
    (fun x => congrArg (Logged.mk x.value) (List.append_nil x.lines))
    (fun _ _ => rfl)
    (fun _ _ _ => congrArg (Logged.mk _) (List.append_assoc ..))

end Logged

namespace Login

open Wire

namespace Server

variable {v : Server} {session payload : Bytes} {now : UInt64}

/-! ## The two parts of a decision -/

/-- The decision as far as it is the same for queries and signed requests: either its end, or the
certificate with the fingerprint of its authority. -/
def screen (v : Server) (head : Head) (now : UInt64) :
    Logged (Except Outcome (Certificate × Bytes)) := do
  if !Certificate.isCertificate head.blob then
    log .trace "Public key is not a certificate [algorithm={}]" [head.algorithm]
    return .error (.notApplicable .notCertificate)
  match ← Certificate.decodeLogged head.blob with
  | .error e => Except.error <$> fail (.undecodable e) none
  | .ok c =>
    match ← v.vet head c now with
    | .error why => Except.error <$> fail why (some c)
    | .ok fingerprint => return .ok (c, fingerprint)

/-- The end of the decision about a request with an acceptable certificate. -/
def answer (v : Server) (session payload : Bytes) (r : Request) (c : Certificate)
    (fingerprint : Bytes) : Logged Outcome := do
  if !r.head.isAuth then
    log .debug "Certificate acceptable [user={}, key id={}]" [r.head.user, c.keyId]
    return .succeeded true c
  match ← v.checkSignature r c (signatureMessage session (payload.take r.signedSize)) with
  | .error why => fail why (some c)
  | .ok () =>
    log .info "Certificate authentication succeeded [user={}, key id={}, serial={}, ca={}]"
      [r.head.user, c.keyId, Text.decimal c.serial.toNat, fingerprint]
    return .succeeded false c

/-- The end of the decision, from how the screening ended. -/
def conclude (v : Server) (session payload : Bytes) (r : Request) :
    Except Outcome (Certificate × Bytes) → Logged Outcome
  | .error outcome => return outcome
  | .ok (c, fingerprint) => v.answer session payload r c fingerprint

theorem authenticate_of_parse {r : Request} (hparse : Request.parse payload = some r) :
    v.authenticate session payload now =
      v.screen r.head now >>= v.conclude session payload r := by
  have hrefused (why : Refusal) (c? : Option Certificate) :
      (Except.error <$> fail why c? >>= v.conclude session payload r) = fail why c? := by
    rw [bind_map_left]
    exact bind_pure _
  unfold authenticate screen
  rw [hparse]
  dsimp only
  cases Certificate.isCertificate r.head.blob with
  | false => rfl
  | true =>
    simp only [Bool.not_true, Bool.false_eq_true, if_false]
    rw [bind_assoc]
    congr 1
    funext decoded
    cases decoded with
    | error e => exact (hrefused _ _).symm
    | ok c =>
      dsimp only
      rw [bind_assoc]
      congr 1
      funext vetted
      cases vetted with
      | error why => exact (hrefused _ _).symm
      | ok fingerprint => rfl

/-- A request whose screening is its end leaves no further lines. -/
theorem authenticate_of_screen_error {r : Request} {outcome : Outcome}
    (hparse : Request.parse payload = some r)
    (hscreen : (v.screen r.head now).value = .error outcome) :
    v.authenticate session payload now = ⟨outcome, (v.screen r.head now).lines⟩ := by
  have hbind : v.authenticate session payload now =
      ⟨(v.conclude session payload r (v.screen r.head now).value).value,
        (v.screen r.head now).lines ++
          (v.conclude session payload r (v.screen r.head now).value).lines⟩ :=
    authenticate_of_parse (r := r) hparse
  rw [hbind, hscreen]
  exact congrArg (Logged.mk outcome) (List.append_nil _)

theorem authenticate_value_of_screen_ok {r : Request} {c : Certificate} {fingerprint : Bytes}
    (hparse : Request.parse payload = some r)
    (hscreen : (v.screen r.head now).value = .ok (c, fingerprint)) :
    (v.authenticate session payload now).value =
      (v.answer session payload r c fingerprint).value := by
  rw [authenticate_of_parse hparse, Logged.value_bind, hscreen]
  rfl

/-! ## One key, asked about and used -/

/-- A request whose screening is its end does not succeed. -/
theorem not_succeeded_of_screen {head : Head} {outcome : Outcome}
    (hscreen : (v.screen head now).value = .error outcome) : outcome.state ≠ .succeeded := by
  have hfailed {why : Refusal} {c? : Option Certificate}
      (h : (Except.error <$> fail why c? :
        Logged (Except Outcome (Certificate × Bytes))).value = .error outcome) :
      outcome.state ≠ .succeeded := by
    cases h
    nofun
  unfold screen at hscreen
  cases hsniff : Certificate.isCertificate head.blob with
  | false =>
    rw [hsniff] at hscreen
    cases hscreen
    nofun
  | true =>
    rw [hsniff] at hscreen
    simp only [Bool.not_true, Bool.false_eq_true, if_false] at hscreen
    rw [Logged.value_bind] at hscreen
    split at hscreen
    · exact hfailed hscreen
    · rw [Logged.value_bind] at hscreen
      split at hscreen
      · exact hfailed hscreen
      · cases hscreen

/-- A server that trusts no authority lets nobody in. -/
theorem not_succeeded_of_trusts_nobody (htrusts : ∀ c fingerprint, v.trusts c fingerprint = false) :
    (v.authenticate session payload now).value.state ≠ .succeeded := by
  cases houtcome : (v.authenticate session payload now).value with
  | notApplicable why => nofun
  | failed why c? => nofun
  | succeeded query c =>
    obtain ⟨r, haccepts, -⟩ := authenticate_eq_succeeded_iff.mp houtcome
    have htrusted := haccepts.vetted.trusted
    rw [htrusts] at htrusted
    cases htrusted

/-- The reasons that are about the certified key or the signature made with it, and their words. -/
def keyRefusals (c : Certificate) : List (Refusal × Bytes) :=
  [(.unsupportedKey c.algorithm, ascii "Unsupported certified key: " ++ c.algorithm),
   (.signatureAlgorithm, ascii "Signature algorithm does not match the request"),
   (.badSignature, ascii "Verifying signature failed")]

/-- There are three reasons to refuse the signature of a request. -/
theorem checkSignature_eq_error {r : Request} {c : Certificate} {message : Bytes} {why : Refusal}
    (hcheck : (v.checkSignature r c message).value = .error why) :
    (why, why.message) ∈ keyRefusals c := by
  unfold checkSignature at hcheck
  rw [Logged.value_bind] at hcheck
  split at hcheck
  · cases hcheck
    exact .head _
  · simp only [Logged.value_ite, Logged.value_pure] at hcheck
    split at hcheck
    · cases hcheck
      exact .tail _ (.head _)
    · split at hcheck
      · cases hcheck
        exact .tail _ (.tail _ (.head _))
      · cases hcheck

theorem answer_query {r : Request} {c : Certificate} {fingerprint : Bytes}
    (hquery : r.head.isAuth = false) :
    (v.answer session payload r c fingerprint).value = .succeeded true c := by
  rw [answer, hquery]
  rfl

theorem answer_signed {r : Request} {c : Certificate} {fingerprint : Bytes}
    (hauth : r.head.isAuth = true) :
    (v.answer session payload r c fingerprint).value = .succeeded false c ∨
      ∃ why words, (why, words) ∈ keyRefusals c ∧
        (v.answer session payload r c fingerprint).value.reason = words ∧
        (v.answer session payload r c fingerprint).value = .failed why (some c) := by
  unfold answer
  simp only [hauth, Bool.not_true, Bool.false_eq_true, if_false]
  rw [Logged.value_bind]
  cases hcheck : (v.checkSignature r c _).value with
  | error why => exact .inr ⟨why, why.message, checkSignature_eq_error hcheck, rfl, rfl⟩
  | ok u => exact .inl rfl

/-- A query, and a signed request for the same key. If the query does not succeed, the signed
request ends as it does and leaves the same lines. If it does, the signed request also succeeds,
with the same certificate, or it is refused for the certified key or for its signature, in the words
of `keyRefusals`. So no signed request succeeds where the query is refused. -/
theorem query_agrees (v : Server) (session : Bytes) (now : UInt64)
    {user service algorithm blob signature : Bytes} (huser : Fits user) (hservice : Fits service)
    (halgorithm : Fits algorithm) (hblob : Fits blob) (hsignature : Fits signature) :
    let query := v.authenticate session (Head.mk user service false algorithm blob).encode now
    let signed := v.authenticate session
      ((Head.mk user service true algorithm blob).encode ++ encodeString signature) now
    (query.value.state ≠ .succeeded → signed = query) ∧
      (query.value.state = .succeeded → ∃ c, query.value = .succeeded true c ∧
        (signed.value = .succeeded false c ∨
          ∃ why words, (why, words) ∈ keyRefusals c ∧ signed.value.reason = words ∧
            signed.value = .failed why (some c))) ∧
      ∀ c, signed.value = .succeeded false c → query.value = .succeeded true c := by
  intro query signed
  let asking : Head := ⟨user, service, false, algorithm, blob⟩
  let proving : Head := ⟨user, service, true, algorithm, blob⟩
  let asked : Request := ⟨asking, [], asking.encode.length⟩
  let proved : Request := ⟨proving, signature, proving.encode.length⟩
  have hasked : Request.parse asking.encode = some asked :=
    asking.parse_encode ⟨huser, hservice, halgorithm, hblob⟩ rfl
  have hproved : Request.parse (proving.encode ++ encodeString signature) = some proved :=
    proving.parse_encode_signature ⟨huser, hservice, halgorithm, hblob⟩ rfl hsignature
  -- the screening does not see whether a signature follows
  have hsame : v.screen proving now = v.screen asking now := rfl
  cases hscreen : (v.screen asking now).value with
  | error outcome =>
    have hquery : query = ⟨outcome, (v.screen asking now).lines⟩ :=
      authenticate_of_screen_error (r := asked) hasked hscreen
    have hsigned : signed = ⟨outcome, (v.screen proving now).lines⟩ :=
      authenticate_of_screen_error (r := proved) hproved (hsame ▸ hscreen)
    have hequal : signed = query := by
      rw [hquery, hsigned, hsame]
    have hrefused : query.value.state ≠ .succeeded := by
      rw [hquery]
      exact not_succeeded_of_screen hscreen
    refine ⟨fun _ => hequal, fun hsucceeded => absurd hsucceeded hrefused, fun c hsucceeded => ?_⟩
    rw [hequal] at hsucceeded
    exact absurd (congrArg Outcome.state hsucceeded) hrefused
  | ok acceptable =>
    obtain ⟨c, fingerprint⟩ := acceptable
    have hquery : query.value = .succeeded true c :=
      (authenticate_value_of_screen_ok (r := asked) hasked hscreen).trans (answer_query rfl)
    have hsigned : signed.value = (v.answer session (proving.encode ++ encodeString signature)
        proved c fingerprint).value :=
      authenticate_value_of_screen_ok (r := proved) hproved (hsame ▸ hscreen)
    have hanswer : signed.value = .succeeded false c ∨
        ∃ why words, (why, words) ∈ keyRefusals c ∧ signed.value.reason = words ∧
          signed.value = .failed why (some c) := by
      rw [hsigned]
      exact answer_signed rfl
    refine ⟨fun hrefused => ?_, fun _ => ⟨c, hquery, hanswer⟩, fun c' hsucceeded => ?_⟩
    · rw [hquery] at hrefused
      exact absurd rfl hrefused
    · rcases hanswer with h | ⟨why, words, -, -, h⟩
      · rw [h] at hsucceeded
        rw [hquery, (Outcome.succeeded.inj hsucceeded).2]
      · rw [h] at hsucceeded
        cases hsucceeded

/-! ## Queries about certificates that can be decoded -/

section Query

variable {head : Head} {c : Certificate} (hfits : head.Fits) (hquery : head.isAuth = false)
  (hsniffed : Certificate.isCertificate head.blob = true)
  (hdecoded : Certificate.decode head.blob = .ok c)

include hfits hquery hsniffed hdecoded

/-- A query about a certificate that can be decoded ends by the vetting. -/
theorem authenticate_query :
    (v.authenticate session head.encode now).value =
      match (v.vet head c now).value with
      | .error why => .failed why (some c)
      | .ok _ => .succeeded true c := by
  have hsniff : ¬ Certificate.isCertificate head.blob = false := by
    rw [hsniffed]
    nofun
  rw [authenticate_value, head.parse_encode hfits hquery]
  dsimp only
  rw [if_neg hsniff, hdecoded]
  dsimp only
  cases (v.vet head c now).value with
  | error why => rfl
  | ok fingerprint => exact if_pos hquery

theorem state_query_eq_succeeded_iff :
    (v.authenticate session head.encode now).value.state = .succeeded ↔
      v.Vetted head c now := by
  rw [authenticate_query hfits hquery hsniffed hdecoded]
  constructor
  · intro h
    split at h
    · cases h
    · next hvet => exact (vet_eq_ok_iff.mp hvet).1
  · intro hvetted
    rw [vet_eq_ok_iff.mpr ⟨hvetted, rfl⟩]
    rfl

theorem state_query_eq_failed
    (hrefused : (v.authenticate session head.encode now).value.state ≠ .succeeded) :
    (v.authenticate session head.encode now).value.state = .failed := by
  rw [authenticate_query hfits hquery hsniffed hdecoded] at hrefused ⊢
  split at hrefused
  · rfl
  · exact absurd rfl hrefused

end Query

/-! ## Queries for issued certificates -/

namespace Sample

open Certificate.Sample

def config : ServerConfig where
  trusted := [Suite.fingerprintText (Suite.standard.digest .sha256 [authority.encode])]

/-- A server that computes and trusts the authority. -/
def server : Server := .ofConfig Suite.standard config

/-- The query for a certificate under an algorithm name. -/
def asking (i : Issued) (algorithm : Bytes) : Head :=
  ⟨ascii "ann", connectionService, false, algorithm, i.blob⟩

theorem trusts_issued (i : Issued) :
    config.trusts (i.certificate.authorityFingerprint Suite.standard) = true := by
  rw [Certificate.authorityFingerprint]
  exact List.contains_iff_mem.mpr (.head _)

theorem valid_issued (i : Issued) : i.certificate.ValidFor config.policy (ascii "ann") 0 :=
  ⟨.inl rfl, .inl rfl, fun _ => .inl rfl⟩

theorem vetted_issued {i : Issued} {algorithm : Bytes}
    (halgorithm : requestNameFits algorithm i.algorithm = true) :
    server.Vetted (asking i algorithm) i.certificate 0 where
  algorithm := halgorithm
  user := rfl
  signed := i.verifySignature_blob
  trusted := trusts_issued i
  valid := valid_issued i

theorem fits_user : Fits (ascii "ann") := by decide

theorem fits_service : Fits connectionService := by decide

theorem fits_dss : (asking dss dss.algorithm).Fits :=
  ⟨fits_user, fits_service, by decide, dss.fits_blob⟩

/-- The query for a certificate of the authority is accepted. -/
theorem authenticate_asking {i : Issued} {algorithm : Bytes}
    (halgorithm : requestNameFits algorithm i.algorithm = true)
    (hshort : i.algorithm.length ≤ Certificate.maxAlgorithmSize)
    (hmarked : isCertificateName i.algorithm = true) (hfits : (asking i algorithm).Fits) :
    (server.authenticate [] (asking i algorithm).encode 0).value =
      .succeeded true i.certificate := by
  have hparse := (asking i algorithm).parse_encode hfits rfl
  have hsniffed := i.isCertificate_blob hshort hmarked
  exact authenticate_eq_succeeded_iff.mpr ⟨_, ⟨hparse, hsniffed, i.decode_blob,
    vetted_issued halgorithm, nofun⟩, rfl⟩

theorem authenticate_dss :
    (server.authenticate [] (asking dss dss.algorithm).encode 0).value =
      .succeeded true dss.certificate :=
  authenticate_asking (by decide) (by decide) (by decide) fits_dss

end Sample

/-- The server accepts the query and may refuse what follows it. One that trusts nobody refuses both
alike. -/
theorem query_agrees_dss :
    let wary : Server := .ofConfig Suite.standard {}
    let asking := Sample.asking Certificate.Sample.dss Certificate.Sample.dss.algorithm
    let c := Certificate.Sample.dss.certificate
    let request := { asking with isAuth := true }.encode ++ encodeString [8]
    (Sample.server.authenticate [] asking.encode 0).value = .succeeded true c ∧
      ((Sample.server.authenticate [] request 0).value = .succeeded false c ∨
        ∃ why words, (why, words) ∈ keyRefusals c ∧
          (Sample.server.authenticate [] request 0).value.reason = words ∧
          (Sample.server.authenticate [] request 0).value = .failed why (some c)) ∧
      (wary.authenticate [] asking.encode 0).value.state ≠ .succeeded ∧
      wary.authenticate [] request 0 = wary.authenticate [] asking.encode 0 := by
  intro wary asking c request
  have hfits : asking.Fits := Sample.fits_dss
  have hsignature : Fits [8] := by decide
  have hquery := Sample.authenticate_dss
  obtain ⟨-, hsucceeds, -⟩ := query_agrees Sample.server [] 0 hfits.user hfits.service
    hfits.algorithm hfits.blob hsignature
  obtain ⟨hrefuses, -, -⟩ := query_agrees wary [] 0 hfits.user hfits.service hfits.algorithm
    hfits.blob hsignature
  obtain ⟨c', hsame, hanswer⟩ := hsucceeds (congrArg Outcome.state hquery)
  obtain rfl : c = c' := by
    have houtcome := hquery.symm.trans hsame
    exact (Outcome.succeeded.inj houtcome).2
  have hwary : (wary.authenticate [] asking.encode 0).value.state ≠ .succeeded :=
    not_succeeded_of_trusts_nobody fun c fingerprint => rfl
  exact ⟨hquery, hanswer, hwary, hrefuses hwary⟩

end Server

end Login

end SshCert

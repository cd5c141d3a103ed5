import SshCert.Proofs.Certificate.CertifiedKey
import SshCert.Proofs.Login.Query

/-
  What the answer to a query promises.
  A query is answered before the certified key is loaded and before the signature algorithm is
  looked up, so an accepted query is no promise that a signed request can succeed
  (`query_accepted_unusable`). What it leaves open is only whether the key can be loaded, and for an
  RSA key whether there is an algorithm of the name that the request gives; everything else that a
  signed request needs is a signature of the key (`query_accepted`).
-/

namespace SshCert

open Wire

/-! ## The signature algorithm of a request -/

theorem plainName_of_rsa {certificate : Bytes} (h : ascii "ssh-rsa-cert-v" <+: certificate) :
    plainName certificate = KeyType.rsa.name := by
  obtain ⟨version, rfl⟩ := h
  have hplain : ¬ certificateMark <:+: KeyType.rsa.name := by
    rw [← Bytes.occurs_iff]
    decide
  exact plainName_append hplain version

/-- A key with the plain name of a certificate makes the signatures that a fitting request names,
unless it is an RSA key and there are no signatures of this name. -/
theorem signatureName_of_requestNameFits {request certificate : Bytes} {k : KeyType}
    (hfits : requestNameFits request certificate = true) (hplain : plainName certificate = k.name) :
    (∃ t, SignatureType.ofName? (signatureName request) = some t ∧ k.makes t = true) ∨
      (k = .rsa ∧ ascii "rsa-sha2-" <+: signatureName request ∧
        SignatureType.ofName? (signatureName request) = none) := by
  rcases requestNameFits_iff.mp hfits with rfl | ⟨hrsa, name, hname, hfree, rfl⟩
  · left
    refine ⟨k.defaultSignature, ?_, k.makes_defaultSignature⟩
    rw [signatureName, hplain, ← k.name_defaultSignature, SignatureType.ofName?_name]
  · have hsignature : signatureName (name ++ certificate.drop (ascii "ssh-rsa").length) = name :=
      plainName_append_drop hrsa hfree
    have hk : k = .rsa := by
      have hsame : KeyType.ofName? k.name = KeyType.ofName? KeyType.rsa.name := by
        rw [← hplain, plainName_of_rsa hrsa]
      rw [KeyType.ofName?_name, KeyType.ofName?_name] at hsame
      exact Option.some.inj hsame
    rw [hsignature]
    cases htype : SignatureType.ofName? name with
    | none => exact .inr ⟨hk, hname, rfl⟩
    | some t =>
      have hnamed : t.name = name := SignatureType.name_of_ofName? htype
      rcases t.name_cases with ⟨-, hold⟩ | ⟨hkeys, -⟩
      · rw [hnamed] at hold
        exact absurd hname hold
      · exact .inl ⟨t, rfl, KeyType.makes_iff.mpr (hkeys.trans hk.symm)⟩

namespace Login.Server

variable {v : Server} {session payload : Bytes} {now : UInt64} {c : Certificate}

/-! ## From the query to the signed request -/

/-- A signed request for a head whose certificate is vetted succeeds exactly with a signature of
the certified key. -/
theorem Vetted.authenticate_signed_iff {h : Head} (hvetted : v.Vetted h c now) (hfits : h.Fits)
    (hsniffed : Certificate.isCertificate h.blob = true)
    (hdecoded : Certificate.decode h.blob = .ok c) (hauth : h.isAuth = true) {signature : Bytes}
    (hsignature : Wire.Fits signature) :
    (v.authenticate session (h.encode ++ encodeString signature) now).value =
        .succeeded false c ↔
      ∃ key blob, (c.certifiedKey v.suite).value = some key ∧
        SignatureBlob.parse signature = some blob ∧ blob.algorithm = signatureName h.algorithm ∧
        v.suite.verifyBlob key (signatureMessage session h.encode) signature = true := by
  have hparse := h.parse_encode_signature hfits hauth hsignature
  have htake : (h.encode ++ encodeString signature).take h.encode.length = h.encode :=
    List.take_left
  rw [authenticate_eq_succeeded_iff]
  constructor
  · intro hsucceeds
    obtain ⟨r, haccepts, -⟩ := hsucceeds
    obtain rfl : ⟨h, signature, h.encode.length⟩ = r :=
      Option.some.inj (hparse.symm.trans haccepts.parsed)
    obtain ⟨key, blob, hproves⟩ := haccepts.possession hauth
    have hverified := hproves.verified
    rw [htake] at hverified
    exact ⟨key, blob, hproves.loaded, hproves.parsed, hproves.algorithm, hverified⟩
  · intro hproves
    obtain ⟨key, blob, hloaded, hparsed, halgorithm, hverified⟩ := hproves
    refine ⟨_, ⟨hparse, hsniffed, hdecoded, hvetted, fun _ => ⟨key, blob, ?_⟩⟩, hauth⟩
    refine ⟨hloaded, hparsed, halgorithm, ?_⟩
    rw [htake]
    exact hverified

/-- The checks of the certificate do not see whether a signature follows. -/
theorem Vetted.of_query {h : Head} (hvetted : v.Vetted h c now) :
    v.Vetted { h with isAuth := true } c now :=
  ⟨hvetted.algorithm, hvetted.user, hvetted.signed, hvetted.trusted, hvetted.valid⟩

/-- What an accepted query promises. The certified key can be loaded if, and only if, the
certificate has the plain name of its type, the key material holds it, and the suite accepts it. If
it can be loaded, the algorithm of the request names signatures that the key makes, unless it is an
RSA key and the name is an unknown one of the newer kind. A signed request for the same user,
service and certificate then succeeds exactly if its signature is one of the loaded key, with the
algorithm that the request names. -/
theorem query_accepted (hquery : (v.authenticate session payload now).value = .succeeded true c) :
    ∃ (r : Request) (parts : List Bytes),
      Request.parse payload = some r ∧ r.head.isAuth = false ∧
      c.keyMaterial = encodeStrings parts ∧
      (∀ key, (c.certifiedKey v.suite).value = some key ↔
        plainName c.algorithm = key.type.name ∧ key.HeldBy parts ∧
          v.suite.acceptsPublic key = true) ∧
      (∀ key, (c.certifiedKey v.suite).value = some key →
        (∃ t, SignatureType.ofName? (signatureName r.head.algorithm) = some t ∧
          key.type.makes t = true) ∨
        (key.type = .rsa ∧ ascii "rsa-sha2-" <+: signatureName r.head.algorithm ∧
          SignatureType.ofName? (signatureName r.head.algorithm) = none)) ∧
      ∀ session' signature : Bytes, Wire.Fits signature →
        let signed : Head := { r.head with isAuth := true }
        (v.authenticate session' (signed.encode ++ encodeString signature) now).value =
            .succeeded false c ↔
          ∃ key blob, (c.certifiedKey v.suite).value = some key ∧
            SignatureBlob.parse signature = some blob ∧
            blob.algorithm = signatureName r.head.algorithm ∧
            v.suite.verifyBlob key (signatureMessage session' signed.encode) signature = true := by
  obtain ⟨r, haccepts, hasked⟩ := authenticate_eq_succeeded_iff.mp hquery
  obtain ⟨l, signature, tail, hl, -, rfl, -⟩ := Certificate.decode_eq_ok_iff.mp haccepts.decoded
  obtain ⟨flag, rest, hstands⟩ := Request.parse_eq_some_iff.mp haccepts.parsed
  have hfits : { r.head with isAuth := true }.Fits :=
    ⟨hstands.fits.user, hstands.fits.service, hstands.fits.algorithm, hstands.fits.blob⟩
  refine ⟨r, l.key, haccepts.parsed, hasked, rfl, fun key => hl.certifiedKey_eq_some_iff, ?_, ?_⟩
  · intro key hkey
    obtain ⟨hplain, -, -⟩ := hl.certifiedKey_eq_some_iff.mp hkey
    exact signatureName_of_requestNameFits haccepts.vetted.algorithm hplain
  · intro session' signature' hsignature
    exact haccepts.vetted.of_query.authenticate_signed_iff hfits haccepts.sniffed haccepts.decoded
      rfl hsignature

/-! ## Accepted queries that promise nothing -/

namespace Sample

open Certificate.Sample

/-- A certificate for an RSA key whose modulus has the least size. -/
def rsa : Issued where
  algorithm := ascii "ssh-rsa-cert-v01@openssh.com"
  keyId := ascii "rsa"
  key := [[3], 1 :: List.replicate 10 0 ++ [1]]
  digest := Bytes.ofNat 20 0x8987fe27_ee19c492_806bc704_7745f0c5_7039b881
  raw :=
    thirds 0x846a64551c48d8b9a0a8372979920c93 0x3aa906c4b3b9c590f7148b40c6b790be
      0xb64333dedf9ee542ecd45ab74d7e5edf
  wellFormed := by
    refine ⟨⟨.rsa, ?_, ?_⟩, ?_, ?_, ?_, ?_, ?_, ?_, ?_, ?_, ?_⟩ <;> decide +kernel
  digest_eq := by decide +kernel
  signed := by decide +kernel
  verified := by decide +kernel
  fits := by decide +kernel

/-- The certified key. -/
def subject : PublicKey := .rsa [3] (1 :: List.replicate 10 0 ++ [1])

/-- The query for the RSA certificate that names a signature algorithm. -/
def rsaAsking (signature : Bytes) : Head := asking rsa (requestName rsa.algorithm signature)

theorem fits_rsaAsking {signature : Bytes} (hfits : Wire.Fits (rsaAsking signature).algorithm) :
    (rsaAsking signature).Fits :=
  ⟨fits_user, fits_service, hfits, rsa.fits_blob⟩

/-- The query is accepted with any plain name. -/
theorem authenticate_rsa {signature : Bytes} (hplain : ¬ certificateMark <:+: signature)
    (hfits : Wire.Fits (rsaAsking signature).algorithm) :
    (server.authenticate [] (rsaAsking signature).encode 0).value =
      .succeeded true rsa.certificate :=
  authenticate_asking (requestNameFits_requestName hplain) (by decide) (by decide)
    (fits_rsaAsking hfits)

theorem certifiedKey_rsa : (rsa.certificate.certifiedKey Suite.standard).value = some subject :=
  rsa.wellFormed.certifiedKey_eq_some_iff.mpr
    ⟨by decide, ⟨[3], _, rfl, rfl, rfl⟩, by decide +kernel⟩

/-- No key has four fields. -/
theorem certifiedKey_dss : (dss.certificate.certifiedKey Suite.standard).value = none := by
  refine Option.eq_none_iff_forall_ne_some.mpr fun key hkey => ?_
  have hlength := (dss.wellFormed.certifiedKey_eq_some_iff.mp hkey).2.1.length_eq
  cases key <;> cases hlength

end Sample

/-- The server accepts the query for a certificate whose key cannot be loaded. It also accepts one
for a certificate whose key can be loaded and a signature algorithm that does not exist. -/
theorem query_accepted_unusable :
    let dss := Certificate.Sample.dss
    let asking := Sample.rsaAsking (ascii "rsa-sha2-1")
    (Sample.server.authenticate [] (Sample.asking dss dss.algorithm).encode 0).value =
        .succeeded true dss.certificate ∧
      (dss.certificate.certifiedKey Suite.standard).value = none ∧
      (Sample.server.authenticate [] asking.encode 0).value =
        .succeeded true Sample.rsa.certificate ∧
      (Sample.rsa.certificate.certifiedKey Suite.standard).value = some Sample.subject ∧
      SignatureType.ofName? (signatureName asking.algorithm) = none := by
  have hplain : ¬ certificateMark <:+: ascii "rsa-sha2-1" := by
    rw [← Bytes.occurs_iff]
    decide
  exact ⟨Sample.authenticate_dss, Sample.certifiedKey_dss,
    Sample.authenticate_rsa hplain (by decide), Sample.certifiedKey_rsa, by decide⟩

/-- For the same certificate and an algorithm that exists, what is left is to sign. -/
theorem query_accepted_rsa :
    let asking := Sample.rsaAsking (ascii "rsa-sha2-256")
    let signed : Head := { asking with isAuth := true }
    (Sample.server.authenticate [] asking.encode 0).value =
        .succeeded true Sample.rsa.certificate ∧
      (Sample.rsa.certificate.certifiedKey Suite.standard).value = some Sample.subject ∧
      (∃ t, SignatureType.ofName? (signatureName asking.algorithm) = some t ∧
        Sample.subject.type.makes t = true) ∧
      (Sample.server.authenticate [] (signed.encode ++ encodeString [8]) 0).value ≠
        .succeeded false Sample.rsa.certificate := by
  intro asking signed
  have hplain : ¬ certificateMark <:+: ascii "rsa-sha2-256" := by
    rw [← Bytes.occurs_iff]
    decide
  have hfits : asking.Fits := Sample.fits_rsaAsking (by decide)
  have hquery := Sample.authenticate_rsa hplain hfits.algorithm
  obtain ⟨r, parts, hparse, -, -, -, hnamed, hsigned⟩ := query_accepted hquery
  obtain rfl : ⟨asking, [], asking.encode.length⟩ = r :=
    Option.some.inj ((asking.parse_encode hfits rfl).symm.trans hparse)
  refine ⟨hquery, Sample.certifiedKey_rsa, ?_, ?_⟩
  · rcases hnamed _ Sample.certifiedKey_rsa with hknown | ⟨-, -, hunknown⟩
    · exact hknown
    · have hknown : SignatureType.ofName? (signatureName asking.algorithm) = some .rsaSha256 := by
        decide
      rw [hknown] at hunknown
      cases hunknown
  · intro hsucceeds
    -- one byte is no signature blob
    obtain ⟨key, blob, -, hblob, -, -⟩ := (hsigned [] [8] (by decide)).mp hsucceeds
    cases hblob

end Login.Server

end SshCert

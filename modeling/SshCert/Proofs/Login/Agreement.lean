import SshCert.Login.Client
import SshCert.Proofs.Certificate.Sniff
import SshCert.Proofs.Key.File
import SshCert.Proofs.Key.Signature
import SshCert.Proofs.Login.Authorisation
import SshCert.Proofs.Login.Credential

/-
  The client and the server agree.
  The client names the algorithm of a request after its certificate and a hint and signs with its
  own key; the server takes the name apart and loads the key from the certificate. For a loaded
  credential the names meet (`Credential.Loads.signatureName_eq`) and so do the keys
  (`Credential.Loads.certifiedKey_eq`). So every request that the client makes is read back, and
  let in wherever its certificate is acceptable (`request_authenticates`).
-/

namespace SshCert.Login

open Wire

namespace Credential

variable {s : Suite} {file : Bytes} {source : Certificate.Source} {secret : PrivateKey}
  {c : Credential}

/-! ## The certificate and the key -/

namespace Loads

/-- The algorithm of the certificate is the type of the key, the mark and a version. -/
theorem algorithm_eq (h : c.Loads s file source secret) :
    plainName c.certificate.algorithm = secret.type.name ∧
      ∃ version, c.certificate.algorithm = secret.type.name ++ (certificateMark ++ version) := by
  obtain ⟨-, hmark⟩ := (Certificate.isCertificate_iff_of_decode h.decoded).mp h.sniffed
  obtain ⟨hfree, hname⟩ := plainName_cases c.certificate.algorithm
  have hle := length_plainName_le c.certificate.algorithm
  have hfits : Fits (plainName c.certificate.algorithm) :=
    Nat.lt_of_le_of_lt hle (Certificate.fits_algorithm h.decoded)
  have hcertified := h.certified
  rw [Certificate.certifiedBlob, encodeAll_cons, PublicKey.encode_eq_append,
    PrivateKey.type_publicHalf] at hcertified
  have hplain : plainName c.certificate.algorithm = secret.type.name :=
    (encodeString_append_inj hfits secret.type.fits_name hcertified).1
  refine ⟨hplain, ?_⟩
  rw [hplain] at hname hfree
  rcases hname with hname | hmarked
  · rw [hname] at hmark
    exact absurd hmark hfree
  · exact hmarked

/-- The blob of the key is no longer than the certificate. -/
theorem length_encode_le (h : c.Loads s file source secret) :
    secret.publicHalf.encode.length ≤ c.blob.length := by
  obtain ⟨hplain, version, halgorithm⟩ := h.algorithm_eq
  obtain ⟨l, signature, tail, -, -, hcertificate, hblob⟩ :=
    Certificate.decode_eq_ok_iff.mp h.decoded
  rw [Certificate.Layout.encode_append] at hblob
  rw [← h.certified, hblob, Certificate.certifiedBlob, hplain]
  rw [hcertificate] at halgorithm ⊢
  have hsize := congrArg List.length halgorithm
  simp only [Certificate.Layout.certificate, encodeAll_cons, encodeAll_nil, encode_string,
    encode_bytes, List.length_append, length_encodeString, List.length_nil] at hsize ⊢
  omega

/-- The server loads the client's key from the certificate. -/
theorem certifiedKey_eq (h : c.Loads s file source secret) (hblob : Fits c.blob) :
    (c.certificate.certifiedKey s).value = some secret.publicHalf := by
  have hfits : Fits secret.publicHalf.encode := Nat.lt_of_le_of_lt h.length_encode_le hblob
  have hparse := PublicKey.parse_encode_append (KeyFile.normal_of_parse h.parsed) hfits []
  rw [List.append_nil] at hparse
  rw [Certificate.certifiedKey_value, Suite.loadPublic_eq_some_iff, h.certified]
  exact ⟨hparse, h.acceptsPublic⟩

/-! ## The request -/

theorem head_fits (h : c.Loads s file source secret) {user service hint : Bytes} {t : SignatureType}
    (ht : secret.type.signatureFor? hint = some t) (hblob : Fits c.blob) (huser : Fits user)
    (hservice : Fits service) : (c.head user service hint true).Fits := by
  obtain ⟨hlen, -⟩ := (Certificate.isCertificate_iff_of_decode h.decoded).mp h.sniffed
  have hhint : hint.length ≤ 19 := by
    rcases (KeyType.signatureFor?_eq_some ht).2 with ⟨rfl, -⟩ | rfl
    · exact Nat.zero_le 19
    · exact t.length_name_le
  have hsize := length_requestName_le c.certificate.algorithm hint
  refine ⟨huser, hservice, ?_, hblob⟩
  show (requestName c.certificate.algorithm hint).length < Bytes.valueCount 4
  rw [Bytes.valueCount_four]
  unfold Certificate.maxAlgorithmSize at hlen
  omega

/-- What the server takes for the signature algorithm is the one that the client signs with. -/
theorem signatureName_eq (h : c.Loads s file source secret) {hint : Bytes} {t : SignatureType}
    (ht : secret.type.signatureFor? hint = some t) :
    signatureName (requestName c.certificate.algorithm hint) = t.name := by
  obtain ⟨hplain, version, halgorithm⟩ := h.algorithm_eq
  exact signatureName_requestName_of_signatureFor? ht halgorithm hplain

theorem sign_eq_some_iff (h : c.Loads s file source secret) {hint message signature : Bytes}
    {random : RandomSource} :
    (c.identity.sign s hint message random).value = some signature ↔
      ∃ t raw, secret.type.signatureFor? hint = some t ∧
        s.sign secret t message random = some raw ∧
        signature = (SignatureBlob.ofRaw t raw).encode := by
  have hprivate : c.identity.private? = some secret := by
    rw [h.identity]
  rw [h.made.sign_eq_some_iff, h.made.type_eq hprivate]
  constructor
  · rintro ⟨secret', t, raw, hsecret, ht, hraw, hsignature⟩
    obtain rfl : secret = secret' := Option.some.inj (hprivate.symm.trans hsecret)
    exact ⟨t, raw, ht, hraw, hsignature⟩
  · rintro ⟨t, raw, ht, hraw, hsignature⟩
    exact ⟨secret, t, raw, hprivate, ht, hraw, hsignature⟩

end Loads

/-- A request is the front and a signature of it. -/
theorem request_eq_some_iff {session user service hint payload : Bytes} {random : RandomSource} :
    (c.request s session user service hint random).value = some payload ↔
      ∃ signature, (c.identity.sign s hint
          (signatureMessage session (c.head user service hint true).encode) random).value =
          some signature ∧
        payload = (c.head user service hint true).encode ++ encodeString signature := by
  unfold request
  rw [Logged.value_bind, Logged.value_ite]
  by_cases hprivate : c.identity.canSign = true
  · rw [if_neg (by rw [hprivate]; nofun), Logged.value_bind]
    cases (c.identity.sign s hint
      (signatureMessage session (c.head user service hint true).encode) random).value with
    | none =>
      refine ⟨nofun, fun h => ?_⟩
      obtain ⟨signature, hsign, -⟩ := h
      cases hsign
    | some signature =>
      constructor
      · intro h
        exact ⟨signature, rfl, (Option.some.inj h).symm⟩
      · intro h
        obtain ⟨signature', hsign, rfl⟩ := h
        cases hsign
        rfl
  · rw [if_pos (by rw [Bool.not_eq_true']; exact Bool.not_eq_true _ ▸ hprivate)]
    refine ⟨nofun, fun h => ?_⟩
    obtain ⟨signature, hsign, -⟩ := h
    have hnone : c.identity.private? = none := by
      rw [Identity.canSign, Option.not_isSome_iff_eq_none] at hprivate
      exact hprivate
    rw [Identity.sign, hnone] at hsign
    cases hsign

/-- The suite verifies every raw signature of the message that it makes for the credential. -/
def VerifiesOwn (c : Credential) (s : Suite) (hint message : Bytes) (random : RandomSource) :
    Prop :=
  ∀ secret t raw, c.identity.private? = some secret →
    c.identity.key.type.signatureFor? hint = some t →
    s.sign secret t message random = some raw → s.verify c.identity.key t message raw = true

theorem Loads.verify_eq_true (h : c.Loads s file source secret) {hint message raw : Bytes}
    {t : SignatureType} {random : RandomSource} (hown : c.VerifiesOwn s hint message random)
    (ht : secret.type.signatureFor? hint = some t)
    (hraw : s.sign secret t message random = some raw) :
    s.verify secret.publicHalf t message raw = true := by
  unfold VerifiesOwn at hown
  rw [h.identity, PrivateKey.type_publicHalf] at hown
  exact hown secret t raw rfl ht hraw

/-- The pieces of a request for the credential. -/
def sent (c : Credential) (user service hint signature : Bytes) : SignedPayload :=
  ⟨user, service, 1, requestName c.certificate.algorithm hint, c.blob, signature, []⟩

theorem front_sent (c : Credential) (user service hint signature : Bytes) :
    (c.sent user service hint signature).front = (c.head user service hint true).encode := by
  rw [SignedPayload.front_eq_wire, Head.encode_eq_wire]
  rfl

theorem bytes_sent (c : Credential) (user service hint signature : Bytes) :
    (c.sent user service hint signature).bytes =
      (c.head user service hint true).encode ++ encodeString signature := by
  rw [SignedPayload.bytes, front_sent]
  exact congrArg _ (List.append_nil _)

end Credential

/-! ## One login -/

namespace Sample

/-- A number of 64 bytes from its halves. -/
def halves (high low : Nat) : Bytes := Bytes.ofNat 32 high ++ Bytes.ofNat 32 low

def modulus : Bytes :=
  halves 0xb8c9745cdf393cba47fdd8d4c615faa057733800a316e4b8c222f968776b6f02
    0x239f0d5d3c04c79b2634791d1806d980ae64252c2dd9e68034b3a25578e9d171

def exponent : Bytes :=
  halves 0x3cf2b55eac81c475eca8dd8bd08a0f503387dd40d88a0486ac01bd21a7c1d7aa
    0xdd72ac3b9e6dcdba8c2b8796a99c014ef8f71942e5b616a23c9c7a2b0562f901

def firstPrime : Bytes :=
  Bytes.ofNat 32 0xde26e5e36c54f83a5d12eda0a106ab95672b7f3c3b93a4c506fbaecf10649345

def secondPrime : Bytes :=
  Bytes.ofNat 32 0xd4f11f899a23a22e43a89b301623dd110dec7277a203998e3b3001d660c6723d

def inverse : Bytes :=
  Bytes.ofNat 32 0x2f2a789805467bb1b81eeb876c75cec85cebb46b1b3bb80335f3e8777622c702

/-- The key that logs in. -/
def user : PrivateKey := .rsa [1, 0, 1] modulus exponent firstPrime secondPrime inverse

/-- The key that signs certificates. -/
def authority : PublicKey :=
  .rsa [1, 0, 1]
    (halves 0xe4a54c534c87d16bf6df79a199c3c6ef89b0f4231c3381f27edef63a5e811a9f
      0x7aadedf587e0a0c00417689340e6a31b7115ef28d8a875c19b925b5d5d49aef9)

def file : Bytes :=
  Pem.armour KeyFile.label (KeyFile.magic ++ encodeAll [
    .string KeyFile.noCipher, .string KeyFile.noCipher, .string [], .u32 1,
    .string user.publicHalf.encode,
    .string (encodeAll [
      .u32 7, .u32 7, .string KeyType.rsa.name, .mpint (.unsigned modulus),
      .mpint (.unsigned [1, 0, 1]), .mpint (.unsigned exponent), .mpint (.unsigned inverse),
      .mpint (.unsigned firstPrime), .mpint (.unsigned secondPrime),
      .string (ascii "ann@host")])])

def layout : Certificate.Layout where
  algorithm := ascii "ssh-rsa-cert-v01@openssh.com"
  nonce := [1, 2, 3]
  key := [[1, 0, 1], 0 :: modulus]
  serial := 7
  typeCode := 1
  keyId := ascii "ann@host"
  principals := [ascii "ann"]
  validAfter := 100
  validBefore := 200
  criticalOptions := []
  extensions := [(ascii "permit-pty", [])]
  reserved := []
  signatureKey := authority.encode

/-- The authority's signature of the layout. -/
def authorityRaw : Bytes :=
  halves 0xd09a5412d45db8541012910411fefda1811f324cb5b9358e0bd207d4020f88f0
    0x4e4ebe9db201d89f17232c4ae32cabd6ccee03be03319b36ace8748439b5b812

def signature : Bytes := (SignatureBlob.ofRaw .rsaSha256 authorityRaw).encode

def credential : Credential where
  identity := ⟨user.publicHalf, some user, ascii "ann@host"⟩
  certificate := layout.certificate signature
  blob := layout.encode ++ encodeString signature

def random : RandomSource := ⟨64, fun _ => 3⟩

def hint : Bytes := ascii "rsa-sha2-256"

def session : Bytes := [9, 9, 9]

def head : Head := credential.head (ascii "ann") connectionService hint true

def message : Bytes := signatureMessage session head.encode

/-- The user's signature of the message, which does not depend on the random bytes. -/
def userRaw : Bytes :=
  halves 0x51c04acc28ff881f85b3acf747de82ce0992b7e358a18e5fa6b5694720d5f35a
    0x22ffa72c4048e17d73ddf9a422378dbf47bdd29b447f2135a3fdf54e3fab8b27

/-- The standard suite as it answers in this login. -/
def suite : Suite :=
  { Suite.standard with
    digest := fun _ _ =>
      Bytes.ofNat 32 0x1b6ea670bbf5098ceba6e25881e603189a5454227590af4c5d7bda119ff8e226
    sign := fun k t m _ =>
      if k = user ∧ t = .rsaSha256 ∧ m = message then some userRaw else none
    verify := fun k t m raw =>
      (k, t, m, raw) = (authority, .rsaSha256, layout.encode, authorityRaw) ∨
        (k, t, m, raw) = (user.publicHalf, .rsaSha256, message, userRaw) }

def payload : Bytes :=
  head.encode ++ encodeString (SignatureBlob.ofRaw .rsaSha256 userRaw).encode

def config : ServerConfig where
  trusted := [ascii "SHA256:G26mcLv1CYzrpuJYgeYDGJpUVCJ1kK9MXXvaEZ/44iY"]

theorem wellFormed_layout : layout.WellFormed := by
  refine ⟨⟨.rsa, ?_, ?_⟩, ?_, ?_, ?_, ?_, ?_, ?_, ?_, ?_, ?_⟩ <;> decide

theorem decode_blob : Certificate.decode credential.blob = .ok credential.certificate :=
  Certificate.decode_eq_ok_iff.mpr ⟨layout, signature, [], wellFormed_layout, by decide,
    rfl, by rw [List.append_nil]; rfl⟩

theorem parse_file : KeyFile.parse file = .ok (user, ascii "ann@host") := by
  have hkey : (KeyFile.parse file).toOption = some (user, ascii "ann@host") := by
    decide +kernel
  cases hparse : KeyFile.parse file with
  | error e =>
    rw [hparse] at hkey
    cases hkey
  | ok p =>
    rw [hparse] at hkey
    exact congrArg Except.ok (Option.some.inj hkey)

theorem loads : credential.Loads suite file (.binary credential.blob) user where
  parsed := parse_file
  acceptsPrivate := by decide +kernel
  acceptsPublic := by decide +kernel
  identity := rfl
  binary := rfl
  sniffed := (Certificate.isCertificate_iff_of_decode decode_blob).mpr
    ⟨by decide, isCertificateName_iff.mp (by decide)⟩
  decoded := decode_blob
  certified := by decide

theorem sign_eq (k : PrivateKey) (t : SignatureType) (m : Bytes) (r : RandomSource) :
    suite.sign k t m r =
      if k = user ∧ t = .rsaSha256 ∧ m = message then some userRaw else none := rfl

theorem verify_eq (k : PublicKey) (t : SignatureType) (m raw : Bytes) :
    suite.verify k t m raw =
      decide ((k, t, m, raw) = (authority, .rsaSha256, layout.encode, authorityRaw) ∨
        (k, t, m, raw) = (user.publicHalf, .rsaSha256, message, userRaw)) := rfl

theorem signsInHalves_suite : suite.SignsInHalves := by
  intro c point scalar m r raw hsign
  rw [sign_eq] at hsign
  cases (Option.ite_none_right_eq_some.mp hsign).1.1

theorem sign_message : suite.sign user .rsaSha256 message random = some userRaw := by
  rw [sign_eq, if_pos ⟨rfl, rfl, rfl⟩]

theorem sign_identity : (credential.identity.sign suite hint message random).value =
    some (SignatureBlob.ofRaw .rsaSha256 userRaw).encode :=
  loads.sign_eq_some_iff.mpr ⟨.rsaSha256, userRaw, by decide, sign_message, rfl⟩

theorem authorityKey_eq : (credential.certificate.authorityKey suite).value = some authority := by
  have hparse : PublicKey.parse (authority.encode ++ []) = .ok authority :=
    PublicKey.parse_encode_append (by decide) (by decide) []
  rw [List.append_nil] at hparse
  rw [Certificate.authorityKey_value, Suite.loadPublic_eq_some_iff]
  exact ⟨hparse, by decide +kernel⟩

theorem verifySignature_blob :
    (credential.certificate.verifySignature suite credential.blob).value = true := by
  have hmakes : authority.type.makes .rsaSha256 = true := by decide
  have hverified : suite.verifyBlob authority layout.encode signature = true := by
    rw [signature, Suite.verifyBlob_ofRaw hmakes (fun c h => by cases h) (by decide),
      verify_eq]
    exact decide_eq_true (.inl rfl)
  exact (Certificate.verifySignature_eq_true_iff (by decide)).mpr
    ⟨layout.encode, rfl, authority, authorityKey_eq, hverified⟩

end Sample

/-! ## Both sides -/

/-- Whatever signed request the client makes with a loaded credential, the server reads back what
was asked for, finds the names to fit, and lets the request in if the certificate is acceptable
and the suite verifies its own raw signature. -/
theorem request_authenticates {s : Suite} (hs : s.SignsInHalves) {file : Bytes}
    {source : Certificate.Source} {c : Credential}
    (hload : (Credential.load s file source).value = .ok c) (hblob : Fits c.blob)
    {session user service hint payload : Bytes} {random : RandomSource}
    (huser : Fits user) (hservice : Fits service)
    (hsignature : ∀ signature, (c.identity.sign s hint
      (signatureMessage session (c.head user service hint true).encode) random).value =
        some signature → Fits signature)
    (hrequest : (c.request s session user service hint random).value = some payload) :
    ∃ r, Request.parse payload = some r ∧
      r.head = ⟨user, service, true, requestName c.certificate.algorithm hint, c.blob⟩ ∧
      requestNameFits r.head.algorithm c.certificate.algorithm = true ∧
      (SignatureBlob.parse r.signature).map (·.algorithm) = some (signatureName r.head.algorithm) ∧
      ∀ (config : ServerConfig) (now : UInt64), c.certificate.type = .user →
        (c.certificate.verifySignature s c.blob).value = true →
        config.trusts (c.certificate.authorityFingerprint s) = true →
        c.certificate.invalidity? config.policy user now = none →
        c.VerifiesOwn s hint
          (signatureMessage session (c.head user service hint true).encode) random →
        ((Server.ofConfig s config).authenticate session payload now).value =
          .succeeded false c.certificate := by
  obtain ⟨secret, h⟩ := Credential.load_eq_ok_iff.mp hload
  obtain ⟨signature, hsign, hpayload⟩ := Credential.request_eq_some_iff.mp hrequest
  have hfits := hsignature signature hsign
  obtain ⟨t, raw, ht, hraw, rfl⟩ := h.sign_eq_some_iff.mp hsign
  have hname := h.signatureName_eq ht
  have hhead := h.head_fits ht hblob huser hservice
  have hblobParsed := SignatureBlob.parse_ofRaw hfits
  let p := c.sent user service hint (SignatureBlob.ofRaw t raw).encode
  have hp : p.WellFormed :=
    ⟨(by decide : (1 : UInt8) ≠ 0), huser, hservice, hhead.algorithm, hblob, hfits⟩
  have hbytes : payload = p.bytes := hpayload.trans (c.bytes_sent ..).symm
  have hparsed : Request.parse payload = some p.request :=
    (parse_signed_iff.mpr ⟨p, hp, hbytes, rfl⟩).1
  have hfitting : requestNameFits p.algorithm c.certificate.algorithm = true :=
    requestNameFits_requestName (unmarked_of_signatureFor? ht)
  refine ⟨p.request, hparsed, rfl, hfitting, ?_, ?_⟩
  · have halgorithm := congrArg (Option.map SignatureBlob.algorithm) hblobParsed
    exact halgorithm.trans (congrArg some hname.symm)
  · intro config now htype hsigned htrusted hvalid hown
    have hvetted : (Server.ofConfig s config).Vetted p.request.head c.certificate now :=
      ⟨hfitting, htype, hsigned, htrusted, Certificate.invalidity?_eq_none_iff.mp hvalid⟩
    have hmessage : signatureMessage session (payload.take p.request.signedSize) =
        signatureMessage session (c.head user service hint true).encode := by
      rw [hbytes, p.take_signedSize, c.front_sent]
    have hverified : s.verifyBlob secret.publicHalf
        (signatureMessage session (payload.take p.request.signedSize))
        (SignatureBlob.ofRaw t raw).encode = true := by
      rw [hmessage, Suite.verifyBlob_publicHalf hs (KeyType.signatureFor?_eq_some ht).1 hraw hfits]
      exact h.verify_eq_true hown ht hraw
    exact Server.authenticate_eq_succeeded_iff.mpr ⟨p.request,
      ⟨hparsed, h.sniffed, h.decoded, hvetted, fun _ => ⟨secret.publicHalf,
        SignatureBlob.ofRaw t raw, h.certifiedKey_eq hblob, hblobParsed, hname.symm, hverified⟩⟩,
      rfl⟩

/-- A request that renames the algorithm of its RSA certificate. -/
theorem request_authenticates_renamed :
    (Credential.load Sample.suite Sample.file (.binary Sample.credential.blob)).value =
        .ok Sample.credential ∧
      (Sample.credential.request Sample.suite Sample.session (ascii "ann") connectionService
        Sample.hint Sample.random).value = some Sample.payload ∧
      (∃ r, Request.parse Sample.payload = some r ∧
        r.head.algorithm = ascii "rsa-sha2-256-cert-v01@openssh.com") ∧
      ((Server.ofConfig Sample.suite Sample.config).authenticate Sample.session Sample.payload
        150).value = .succeeded false Sample.credential.certificate := by
  have hload := Credential.load_eq_ok_iff.mpr ⟨_, Sample.loads⟩
  have hrequest := Credential.request_eq_some_iff.mpr ⟨_, Sample.sign_identity, rfl⟩
  have hsignature : ∀ signature, (Sample.credential.identity.sign Sample.suite Sample.hint
      Sample.message Sample.random).value = some signature → Fits signature := by
    intro signature hsign
    rw [Sample.sign_identity] at hsign
    cases hsign
    decide +kernel
  obtain ⟨r, hparse, hhead, -, -, hauthenticate⟩ := request_authenticates
    Sample.signsInHalves_suite hload (by decide +kernel) (by decide) (by decide) hsignature hrequest
  refine ⟨hload, hrequest, ⟨r, hparse, ?_⟩, hauthenticate Sample.config 150 rfl
    Sample.verifySignature_blob (by decide +kernel) (by decide +kernel) ?_⟩
  · rw [hhead]
    decide
  · intro secret t raw hsecret ht hraw
    rw [Sample.sign_eq] at hraw
    obtain ⟨⟨-, rfl, -⟩, huserRaw⟩ := Option.ite_none_right_eq_some.mp hraw
    rw [← Option.some.inj huserRaw, Sample.verify_eq]
    exact decide_eq_true (.inr rfl)

end SshCert.Login

import SshCert.Login.Request
import SshCert.Proofs.Wire.Reading

/-
  Requests on the wire.
  `Request.parse_eq_some_iff` says which payloads hold a request and which one: the front, in
  which any byte but zero stands for true, then the signature if there is one, then anything.
  A signature covers the session identifier and the front. Both are told apart by the bytes that
  are signed (`signatureMessage_binds`), so a signature cannot be carried over to another
  session, user, service, algorithm or key.
-/

namespace SshCert.Login

open Wire

/-! ## The front of a request -/

/-- The front of a request with `flag` as its boolean byte. -/
def Head.wire (h : Head) (flag : UInt8) : Bytes :=
  encodeAll [.u8 messageNumber, .string h.user, .string h.service, .string methodName, .u8 flag,
    .string h.algorithm, .string h.blob]

/-- Every string of the front has a length that can be written. -/
structure Head.Fits (h : Head) : Prop where
  user : Wire.Fits h.user
  service : Wire.Fits h.service
  algorithm : Wire.Fits h.algorithm
  blob : Wire.Fits h.blob

theorem Head.encode_eq_wire (h : Head) : h.encode = h.wire (if h.isAuth then 1 else 0) := rfl

theorem fits_methodName : Wire.Fits methodName := by
  decide

theorem Head.wire_append (h : Head) (flag : UInt8) (rest : Bytes) :
    h.wire flag ++ rest =
      messageNumber :: (encodeString h.user ++ (encodeString h.service
        ++ (encodeString methodName ++ flag :: (encodeString h.algorithm
          ++ (encodeString h.blob ++ rest))))) := by
  simp [Head.wire]

/-- The front is read from exactly the bytes that it is written as, up to the byte for true. -/
theorem Head.read_eq_some_iff {h : Head} {p rest : Bytes} :
    Head.read p = some (h, rest) ↔
      h.Fits ∧ ∃ flag : UInt8, h.isAuth = (flag != 0) ∧ p = h.wire flag ++ rest := by
  unfold Head.read
  constructor
  · intro hread
    obtain ⟨number, p₁, hnumber, hread⟩ := bind_eq_some_iff.mp hread
    obtain ⟨_, p₂, hnumber', hread⟩ := bind_eq_some_iff.mp hread
    obtain ⟨user, p₃, huser, hread⟩ := bind_eq_some_iff.mp hread
    obtain ⟨service, p₄, hservice, hread⟩ := bind_eq_some_iff.mp hread
    obtain ⟨method, p₅, hmethod, hread⟩ := bind_eq_some_iff.mp hread
    obtain ⟨_, p₆, hmethod', hread⟩ := bind_eq_some_iff.mp hread
    obtain ⟨isAuth, p₇, hflag, hread⟩ := bind_eq_some_iff.mp hread
    obtain ⟨algorithm, p₈, halgorithm, hread⟩ := bind_eq_some_iff.mp hread
    obtain ⟨blob, p₉, hblob, hread⟩ := bind_eq_some_iff.mp hread
    cases pure_eq_some_iff.mp hread
    obtain ⟨rfl, ⟨⟩⟩ := guard_eq_some_iff.mp hnumber'
    obtain ⟨rfl, ⟨⟩⟩ := guard_eq_some_iff.mp hmethod'
    -- every step says which bytes it took; put together they are the front
    rw [u8_eq_some_iff] at hnumber
    rw [string_eq_some_iff] at huser hservice hmethod halgorithm hblob
    obtain ⟨flag, hauth, hflag⟩ := bool_eq_some_iff.mp hflag
    refine ⟨⟨huser.1, hservice.1, halgorithm.1, hblob.1⟩, flag, hauth, ?_⟩
    rw [Head.wire_append, hnumber, huser.2, hservice.2, hmethod.2, hflag, halgorithm.2, hblob.2]
  · intro h
    obtain ⟨hfits, flag, hflag, rfl⟩ := h
    rw [Head.wire_append]
    refine bind_eq_some_iff.mpr ⟨_, _, u8_eq_some_iff.mpr rfl, ?_⟩
    refine bind_eq_some_iff.mpr ⟨_, _, guard_eq_some_iff.mpr ⟨rfl, rfl⟩, ?_⟩
    refine bind_eq_some_iff.mpr ⟨_, _, string_encodeString hfits.user _, ?_⟩
    refine bind_eq_some_iff.mpr ⟨_, _, string_encodeString hfits.service _, ?_⟩
    refine bind_eq_some_iff.mpr ⟨_, _, string_encodeString fits_methodName _, ?_⟩
    refine bind_eq_some_iff.mpr ⟨_, _, guard_eq_some_iff.mpr ⟨rfl, rfl⟩, ?_⟩
    refine bind_eq_some_iff.mpr ⟨_, _, bool_eq_some_iff.mpr ⟨flag, hflag, rfl⟩, ?_⟩
    refine bind_eq_some_iff.mpr ⟨_, _, string_encodeString hfits.algorithm _, ?_⟩
    exact bind_eq_some_iff.mpr ⟨_, _, string_encodeString hfits.blob _, rfl⟩

/-! ## Whole requests -/

namespace Request

/-- The signature as it stands behind the front; a query has none. -/
def signatureField (r : Request) : Bytes :=
  if r.head.isAuth then encodeString r.signature else []

/-- The payload holds the request, with `flag` as its boolean byte and `tail` behind it. -/
structure Stands (r : Request) (flag : UInt8) (tail payload : Bytes) : Prop where
  fits : r.head.Fits
  isAuth : r.head.isAuth = (flag != 0)
  signedSize : r.signedSize = (r.head.wire flag).length
  fitsSignature : Wire.Fits r.signature
  query : r.head.isAuth = false → r.signature = []
  payload_eq : payload = r.head.wire flag ++ (r.signatureField ++ tail)

theorem Stands.take_signedSize {r : Request} {flag : UInt8} {tail payload : Bytes}
    (h : r.Stands flag tail payload) : payload.take r.signedSize = r.head.wire flag := by
  rw [h.payload_eq, h.signedSize, List.take_left]

/-- A payload is accepted exactly if a request stands in it, and as that request. -/
theorem parse_eq_some_iff {payload : Bytes} {r : Request} :
    Request.parse payload = some r ↔ ∃ flag tail, r.Stands flag tail payload := by
  unfold Request.parse
  constructor
  · intro hparse
    obtain ⟨⟨head, rest⟩, hread, hparse⟩ := Option.bind_eq_some_iff.mp hparse
    obtain ⟨hfits, flag, hflag, rfl⟩ := Head.read_eq_some_iff.mp hread
    have hsize : (head.wire flag ++ rest).length - rest.length = (head.wire flag).length := by
      rw [List.length_append]
      omega
    dsimp only at hparse
    split at hparse
    · next hauth =>
      obtain ⟨⟨signature, tail⟩, hsig, hparse⟩ := Option.bind_eq_some_iff.mp hparse
      cases hparse
      obtain ⟨hfitsSig, rfl⟩ := string_eq_some_iff.mp hsig
      refine ⟨flag, tail, hfits, hflag, hsize, hfitsSig, ?_, ?_⟩
      · intro hquery
        rw [hauth] at hquery
        cases hquery
      · rw [signatureField, if_pos hauth]
    · next hquery =>
      cases hparse
      refine ⟨flag, rest, hfits, hflag, hsize, fits_nil, fun _ => rfl, ?_⟩
      rw [signatureField, if_neg hquery, List.nil_append]
  · intro hstands
    obtain ⟨flag, tail, h⟩ := hstands
    have hread := Head.read_eq_some_iff.mpr ⟨h.fits, flag, h.isAuth, h.payload_eq⟩
    have hlen := congrArg List.length h.payload_eq
    have hsize : payload.length - (r.signatureField ++ tail).length = r.signedSize := by
      rw [List.length_append] at hlen
      rw [h.signedSize]
      omega
    refine Option.bind_eq_some_iff.mpr ⟨_, hread, ?_⟩
    dsimp only
    rw [hsize]
    split
    · next hauth =>
      rw [signatureField, if_pos hauth, string_encodeString h.fitsSignature]
      rfl
    · next hquery =>
      rw [← h.query (Bool.not_eq_true _ ▸ hquery)]
      rfl

end Request

/-! ## What a signature covers -/

theorem signatureMessage_eq (session signedPart : Bytes) :
    signatureMessage session signedPart = encodeString session ++ signedPart := by
  simp [signatureMessage]

/-- Equal signed bytes come from one session and one front. Two requests that are signed alike can
only differ in their signatures and in what stands behind them. -/
theorem signatureMessage_binds {session₁ session₂ payload₁ payload₂ : Bytes} {r₁ r₂ : Request}
    (hs₁ : Wire.Fits session₁) (hs₂ : Wire.Fits session₂)
    (h₁ : Request.parse payload₁ = some r₁) (h₂ : Request.parse payload₂ = some r₂)
    (h : signatureMessage session₁ (payload₁.take r₁.signedSize) =
      signatureMessage session₂ (payload₂.take r₂.signedSize)) :
    session₁ = session₂ ∧ r₁.signedSize = r₂.signedSize ∧ r₁.head = r₂.head := by
  obtain ⟨flag₁, tail₁, stands₁⟩ := Request.parse_eq_some_iff.mp h₁
  obtain ⟨flag₂, tail₂, stands₂⟩ := Request.parse_eq_some_iff.mp h₂
  rw [signatureMessage_eq, signatureMessage_eq, stands₁.take_signedSize,
    stands₂.take_signedSize] at h
  obtain ⟨hsession, hfront⟩ := encodeString_append_inj hs₁ hs₂ h
  -- one reading of the common front gives both heads
  have hread₁ : Head.read (r₁.head.wire flag₁ ++ []) = some (r₁.head, []) :=
    Head.read_eq_some_iff.mpr ⟨stands₁.fits, flag₁, stands₁.isAuth, rfl⟩
  have hread₂ : Head.read (r₂.head.wire flag₂ ++ []) = some (r₂.head, []) :=
    Head.read_eq_some_iff.mpr ⟨stands₂.fits, flag₂, stands₂.isAuth, rfl⟩
  rw [hfront, hread₂] at hread₁
  refine ⟨hsession, ?_, (congrArg Prod.fst (Option.some.inj hread₁)).symm⟩
  rw [stands₁.signedSize, stands₂.signedSize, hfront]

/-- One front under two signatures, once with bytes behind the signature. -/
theorem signatureMessage_binds_resigned :
    let head : Head := ⟨ascii "ann", connectionService, true, ascii "ssh-rsa-cert-v01", [1, 2]⟩
    let payload₁ := head.encode ++ encodeString [7, 7]
    let payload₂ := head.encode ++ (encodeString [8] ++ [0, 0])
    let r₁ : Request := ⟨head, [7, 7], head.encode.length⟩
    let r₂ : Request := ⟨head, [8], head.encode.length⟩
    Request.parse payload₁ = some r₁ ∧ Request.parse payload₂ = some r₂ ∧ r₁ ≠ r₂ ∧
      r₁.signedSize = r₂.signedSize ∧ r₁.head = r₂.head := by
  intro head payload₁ payload₂ r₁ r₂
  have h₁ : Request.parse payload₁ = some r₁ := by decide
  have h₂ : Request.parse payload₂ = some r₂ := by decide
  have hsigned : signatureMessage [5] (payload₁.take r₁.signedSize) =
      signatureMessage [5] (payload₂.take r₂.signedSize) := by decide
  exact ⟨h₁, h₂, by decide, (signatureMessage_binds (by decide) (by decide) h₁ h₂ hsigned).2⟩

end SshCert.Login

import SshCert.Proofs.Login.Request

/-
  Payloads of requests, written and cut.
  A query is its front, a signed request its front and the signature. Both are read back in front
  of anything (`Head.parse_wire_append`), and an accepted payload begins with the front that its
  request is written as, up to the byte for true (`Request.Stands.front_eq`). A part of a payload
  that lacks a byte of the request holds no request (`Request.Stands.parse_take`).
  `Request.parse_written` is the reader and the writer in one statement.
-/

namespace SshCert.Login

open Wire

/-! ## The place of the boolean byte -/

/-- How many bytes of the front stand before the byte that says whether a signature follows. -/
def Head.flagPlace (h : Head) : Nat :=
  (encodeAll [.u8 messageNumber, .string h.user, .string h.service, .string methodName]).length

/-- The boolean byte with what stands before and behind it. -/
theorem Head.wire_eq_append (h : Head) (flag : UInt8) :
    h.wire flag =
      encodeAll [.u8 messageNumber, .string h.user, .string h.service, .string methodName] ++
        flag :: encodeAll [.string h.algorithm, .string h.blob] := by
  simp [Head.wire]

theorem Head.flagPlace_lt (h : Head) : h.flagPlace < h.encode.length := by
  rw [Head.encode_eq_wire, Head.wire_eq_append, List.length_append, List.length_cons]
  unfold Head.flagPlace
  omega

/-- The front with another boolean byte is the front that is written with that byte replaced. -/
theorem Head.wire_eq_set (h : Head) (flag : UInt8) :
    h.wire flag = h.encode.set h.flagPlace flag := by
  rw [Head.encode_eq_wire, Head.wire_eq_append, Head.wire_eq_append, Head.flagPlace,
    List.set_append_right _ _ (Nat.le_refl _), Nat.sub_self, List.set_cons_zero]

/-! ## The method -/

/-- Reads a payload up to its login method: the number of the message, the user, the service and
the method. -/
def readMethod : Wire.Reader Bytes := do
  let _ ← Wire.u8
  let _ ← Wire.string
  let _ ← Wire.string
  Wire.string

/-- The login method that a payload names. -/
def methodIn? (payload : Bytes) : Option Bytes := (readMethod payload).map Prod.fst

theorem methodIn?_wire_append {h : Head} (hfits : h.Fits) (flag : UInt8) (rest : Bytes) :
    methodIn? (h.wire flag ++ rest) = some methodName := by
  have hread : readMethod (h.wire flag ++ rest) = some (methodName,
      flag :: (encodeString h.algorithm ++ (encodeString h.blob ++ rest))) := by
    rw [Head.wire_append]
    refine bind_eq_some_iff.mpr ⟨_, _, u8_eq_some_iff.mpr rfl, ?_⟩
    refine bind_eq_some_iff.mpr ⟨_, _, string_encodeString hfits.user _, ?_⟩
    refine bind_eq_some_iff.mpr ⟨_, _, string_encodeString hfits.service _, ?_⟩
    exact string_encodeString fits_methodName _
  rw [methodIn?, hread]
  rfl

/-! ## Written requests -/

theorem Head.length_wire (h : Head) (flag : UInt8) : (h.wire flag).length = h.encode.length := by
  rw [Head.wire_eq_set, List.length_set]

/-- A front and what it says is behind it are read back in front of anything, whatever byte stands
for true. -/
theorem Head.parse_wire_append {h : Head} (hfits : h.Fits) {flag : UInt8}
    (hflag : h.isAuth = (flag != 0)) {signature : Bytes} (hsignature : Wire.Fits signature)
    (hquery : h.isAuth = false → signature = []) (tail : Bytes) :
    Request.parse (h.wire flag ++ ((if h.isAuth then encodeString signature else []) ++ tail)) =
      some ⟨h, signature, h.encode.length⟩ :=
  Request.parse_eq_some_iff.mpr
    ⟨flag, tail, hfits, hflag, (h.length_wire flag).symm, hsignature, hquery, rfl⟩

theorem Head.parse_query {h : Head} (hfits : h.Fits) (hquery : h.isAuth = false) (tail : Bytes) :
    Request.parse (h.encode ++ tail) = some ⟨h, [], h.encode.length⟩ := by
  have hwire : h.encode = h.wire 0 := by
    rw [Head.encode_eq_wire, hquery]
    rfl
  have hflag : h.isAuth = ((0 : UInt8) != 0) := hquery
  have hparse := parse_wire_append hfits hflag fits_nil (fun _ => rfl) tail
  simpa only [hquery, ← hwire, Bool.false_eq_true, if_false, List.nil_append] using hparse

theorem Head.parse_signed {h : Head} (hfits : h.Fits) (hauth : h.isAuth = true) {signature : Bytes}
    (hsignature : Wire.Fits signature) (tail : Bytes) :
    Request.parse (h.encode ++ (encodeString signature ++ tail)) =
      some ⟨h, signature, h.encode.length⟩ := by
  have hwire : h.encode = h.wire 1 := by
    rw [Head.encode_eq_wire, hauth]
    rfl
  have hflag : h.isAuth = ((1 : UInt8) != 0) := hauth
  have hsigned : h.isAuth = false → signature = [] := by
    rw [hauth]
    nofun
  have hparse := parse_wire_append hfits hflag hsignature hsigned tail
  simpa only [hauth, ← hwire, if_true] using hparse

theorem Head.parse_encode {h : Head} (hfits : h.Fits) (hquery : h.isAuth = false) :
    Request.parse h.encode = some ⟨h, [], h.encode.length⟩ := by
  simpa only [List.append_nil] using parse_query hfits hquery []

theorem Head.parse_encode_signature {h : Head} (hfits : h.Fits) (hauth : h.isAuth = true)
    {signature : Bytes} (hsignature : Wire.Fits signature) :
    Request.parse (h.encode ++ encodeString signature) =
      some ⟨h, signature, h.encode.length⟩ := by
  simpa only [List.append_nil] using parse_signed hfits hauth hsignature []

/-! ## Accepted payloads -/

namespace Request

/-- How many bytes of a payload the request takes. -/
def size (r : Request) : Nat := r.signedSize + r.signatureField.length

variable {r : Request} {flag : UInt8} {tail payload : Bytes}

theorem Stands.front_eq (h : r.Stands flag tail payload) :
    payload.take r.signedSize = r.head.encode.set r.head.flagPlace flag := by
  rw [h.take_signedSize, Head.wire_eq_set]

theorem Stands.drop_signedSize (h : r.Stands flag tail payload) :
    payload.drop r.signedSize = r.signatureField ++ tail := by
  rw [h.payload_eq, h.signedSize, List.drop_left]

/-- What stands in a payload also stands in it with more bytes behind it. -/
theorem Stands.append (h : r.Stands flag tail payload) (more : Bytes) :
    r.Stands flag (tail ++ more) (payload ++ more) := by
  refine ⟨h.fits, h.isAuth, h.signedSize, h.fitsSignature, h.query, ?_⟩
  rw [h.payload_eq]
  simp only [List.append_assoc]

theorem Stands.size_eq (h : r.Stands flag tail payload) :
    r.size = (r.head.wire flag ++ r.signatureField).length := by
  rw [size, h.signedSize, List.length_append]

/-- The bytes that a request takes hold it without anything behind it. -/
theorem Stands.take_size (h : r.Stands flag tail payload) :
    r.Stands flag [] (payload.take r.size) := by
  refine ⟨h.fits, h.isAuth, h.signedSize, h.fitsSignature, h.query, ?_⟩
  rw [h.size_eq, h.payload_eq, List.append_nil, ← List.append_assoc, List.take_left]

/-- A request is not known before all its bytes are. -/
theorem Stands.parse_take (h : r.Stands flag tail payload) {k : Nat} (hk : k < r.size) :
    parse (payload.take k) = none := by
  cases hparse : parse (payload.take k) with
  | none => rfl
  | some r' =>
    obtain ⟨flag', tail', h'⟩ := parse_eq_some_iff.mp hparse
    -- the request of the part would stand in the whole payload as well, and be shorter
    have hlonger := h'.append (payload.drop k)
    rw [List.take_append_drop] at hlonger
    have hwhole : parse payload = some r' := parse_eq_some_iff.mpr ⟨_, _, hlonger⟩
    rw [parse_eq_some_iff.mpr ⟨flag, tail, h⟩, Option.some.injEq] at hwhole
    subst hwhole
    have hsize := congrArg List.length h'.payload_eq
    rw [← List.append_assoc, List.length_append, ← h'.size_eq, List.length_take] at hsize
    omega

/-- A query and a signed request are read back from what they are written as, whatever stands
behind them and whatever byte stands for true. The other way round, an accepted payload begins with
the front that its request is written as, up to that byte, then has the signature if there is one,
and no shorter part of it is accepted. The method is `publickey` in all of them. -/
theorem parse_written :
    (∀ user service algorithm blob signature tail : Bytes, Wire.Fits user → Wire.Fits service →
      Wire.Fits algorithm → Wire.Fits blob → Wire.Fits signature →
      let signed : Head := ⟨user, service, true, algorithm, blob⟩
      let query : Head := ⟨user, service, false, algorithm, blob⟩
      let signedPayload := signed.encode ++ (encodeString signature ++ tail)
      let queryPayload := query.encode ++ tail
      parse signedPayload = some ⟨signed, signature, signed.encode.length⟩ ∧
        methodIn? signedPayload = some (ascii "publickey") ∧
        parse queryPayload = some ⟨query, [], query.encode.length⟩ ∧
        methodIn? queryPayload = some (ascii "publickey") ∧
        ∀ flag ≠ 0, parse (signedPayload.set signed.flagPlace flag) =
          some ⟨signed, signature, signed.encode.length⟩) ∧
    ∀ (payload : Bytes) (r : Request), parse payload = some r →
      methodIn? payload = some (ascii "publickey") ∧
      (∃ flag : UInt8, r.head.isAuth = (flag != 0) ∧
        payload.take r.signedSize = r.head.encode.set r.head.flagPlace flag) ∧
      (∃ tail, payload.drop r.signedSize =
        (if r.head.isAuth then encodeString r.signature else []) ++ tail) ∧
      parse (payload.take r.size) = some r ∧
      ∀ k < r.size, parse (payload.take k) = none := by
  refine ⟨?_, ?_⟩
  · intro user service algorithm blob signature tail huser hservice halgorithm hblob hsignature
      signed query signedPayload queryPayload
    have hsigned : signed.Fits := ⟨huser, hservice, halgorithm, hblob⟩
    have hquery : query.Fits := ⟨huser, hservice, halgorithm, hblob⟩
    refine ⟨signed.parse_signed hsigned rfl hsignature tail, methodIn?_wire_append hsigned 1 _,
      query.parse_query hquery rfl tail, methodIn?_wire_append hquery 0 _, fun flag hflag => ?_⟩
    rw [List.set_append_left _ _ signed.flagPlace_lt, ← signed.wire_eq_set]
    exact signed.parse_wire_append hsigned (bne_iff_ne.mpr hflag).symm hsignature nofun tail
  · intro payload r hparse
    obtain ⟨flag, tail, h⟩ := parse_eq_some_iff.mp hparse
    have hmethod : methodIn? payload = some (ascii "publickey") := by
      rw [h.payload_eq]
      exact methodIn?_wire_append h.fits flag _
    exact ⟨hmethod, ⟨flag, h.isAuth, h.front_eq⟩, ⟨tail, h.drop_signedSize⟩,
      parse_eq_some_iff.mpr ⟨flag, [], h.take_size⟩, fun k hk => h.parse_take hk⟩

/-- A request whose boolean byte is seven, with two bytes behind its signature. -/
theorem parse_written_flag :
    let head : Head := ⟨ascii "ann", connectionService, true, ascii "ssh-rsa-cert-v01", [1, 2]⟩
    let payload := head.wire 7 ++ (encodeString [8, 8, 8] ++ [0, 0])
    parse payload = some ⟨head, [8, 8, 8], 66⟩ ∧
      (∃ flag : UInt8, true = (flag != 0) ∧
        payload.take 66 = head.encode.set head.flagPlace flag) ∧
      parse (payload.take 73) = some ⟨head, [8, 8, 8], 66⟩ ∧ parse (payload.take 72) = none ∧
      parse (head.encode ++ (encodeString [8] ++ [])) = some ⟨head, [8], head.encode.length⟩ := by
  intro head payload
  have hparse : parse payload = some ⟨head, [8, 8, 8], 66⟩ := by decide
  obtain ⟨hwritten, haccepted⟩ := parse_written
  obtain ⟨-, hfront, -, hwhole, hcut⟩ := haccepted payload _ hparse
  obtain ⟨hsigned, -, -, -, -⟩ := hwritten (ascii "ann") connectionService
    (ascii "ssh-rsa-cert-v01") [1, 2] [8] [] (by decide) (by decide) (by decide) (by decide)
    (by decide)
  exact ⟨hparse, hfront, hwhole, hcut 72 (by decide), hsigned⟩

end Request

end SshCert.Login

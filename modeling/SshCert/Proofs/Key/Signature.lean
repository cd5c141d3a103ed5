import Mathlib.Data.Option.Basic
import SshCert.Key.Signature
import SshCert.Proofs.Algorithm.Name
import SshCert.Proofs.Wire.Integer
import SshCert.Suite.Standard

/-
  Signature blobs.
  A blob is read back as it was written (`SignatureBlob.parse_encode`), and the pair of integers
  of an ECDSA signature gives both halves again (`halvesOfPair?_pairOfHalves`). So where a suite
  makes ECDSA signatures of two halves, verifying a blob that was made from a raw signature is
  verifying the raw signature (`Suite.verifyBlob_ofRaw`). A pair need not be written by
  `pairOfHalves` to be taken: `halvesOfPair?_eq_some_iff` says which pairs are, and
  `halvesOfPair?_reencoded` that they differ from the written one in nothing but leading zeros and
  what follows them.
-/

namespace SshCert

open Wire

/-! ## Blobs -/

namespace SignatureBlob

theorem encode_eq (s : SignatureBlob) :
    s.encode = encodeString s.algorithm ++ encodeString s.payload := by
  simp [encode]

theorem parse_encode {s : SignatureBlob} (halgorithm : Fits s.algorithm)
    (hpayload : Fits s.payload) (rest : Bytes) : parse (s.encode ++ rest) = some s := by
  unfold parse
  rw [encode_eq, List.append_assoc, string_encodeString halgorithm]
  refine Option.bind_eq_some_iff.mpr ⟨_, rfl, ?_⟩
  dsimp only
  rw [string_encodeString hpayload]
  rfl

theorem fits_payload_of_encode {s : SignatureBlob} (h : Fits s.encode) : Fits s.payload := by
  rw [encode_eq, Fits, List.length_append, length_encodeString, length_encodeString] at h
  rw [Fits]
  omega

theorem parse_ofRaw_of_fits_payload {t : SignatureType} {raw : Bytes}
    (h : Fits (ofRaw t raw).payload) : parse (ofRaw t raw).encode = some (ofRaw t raw) := by
  have hread := parse_encode (s := ofRaw t raw) t.fits_name h []
  rw [List.append_nil] at hread
  exact hread

theorem parse_ofRaw {t : SignatureType} {raw : Bytes} (h : Fits (ofRaw t raw).encode) :
    parse (ofRaw t raw).encode = some (ofRaw t raw) :=
  parse_ofRaw_of_fits_payload (fits_payload_of_encode h)

/-! ## ECDSA signatures -/

theorem coordinateSize_le (c : Curve) : c.coordinateSize ≤ 66 := by
  cases c <;> decide

theorem coordinateSize_pos (c : Curve) : 0 < c.coordinateSize := by
  cases c <;> decide

theorem fits_payload_of_le {c : Curve} {d : Bytes} (h : d.length ≤ c.coordinateSize) :
    Fits (Mpint.unsigned d).payload := by
  have hsize := coordinateSize_le c
  refine Mpint.fits_payload ?_
  rw [Bytes.valueCount_four]
  omega

theorem exists_halves {c : Curve} {raw : Bytes} (hraw : raw.length = 2 * c.coordinateSize) :
    ∃ r s : Bytes, r.length = c.coordinateSize ∧ s.length = c.coordinateSize ∧ raw = r ++ s := by
  refine ⟨raw.take c.coordinateSize, raw.drop c.coordinateSize, ?_, ?_, ?_⟩
  · exact List.length_take_of_le (by omega)
  · rw [List.length_drop]
    omega
  · rw [List.take_append_drop]

theorem pairOfHalves_append {r s : Bytes} (h : r.length = s.length) :
    pairOfHalves (r ++ s) =
      encodeString (Mpint.unsigned r).payload ++ encodeString (Mpint.unsigned s).payload := by
  have hhalf : (r ++ s).length / 2 = r.length := by
    rw [List.length_append]
    omega
  have hfirst : Bytes.slice (r ++ s) 0 r.length = r := List.take_left
  have hsecond : Bytes.slice (r ++ s) r.length r.length = s := by
    rw [Bytes.slice, List.drop_left, List.take_of_length_le (Nat.le_of_eq h.symm)]
  unfold pairOfHalves
  dsimp only
  rw [hhalf, hfirst, hsecond]
  simp

theorem fits_pairOfHalves {c : Curve} {raw : Bytes} (hraw : raw.length = 2 * c.coordinateSize) :
    Fits (pairOfHalves raw) := by
  obtain ⟨r, s, hr, hs, rfl⟩ := exists_halves hraw
  have hfirst := Mpint.length_payload_le r
  have hsecond := Mpint.length_payload_le s
  have hsize := coordinateSize_le c
  rw [pairOfHalves_append (hr.trans hs.symm), Fits, List.length_append, length_encodeString,
    length_encodeString, Bytes.valueCount_four]
  omega

/-- The payload begins with both strings. -/
def BeginsWith (payload first second : Bytes) : Prop :=
  Fits first ∧ Fits second ∧ ∃ rest, payload = encodeString first ++ (encodeString second ++ rest)

theorem BeginsWith.unique {payload first second first' second' : Bytes}
    (h : BeginsWith payload first second) (h' : BeginsWith payload first' second') :
    first' = first ∧ second' = second := by
  obtain ⟨hfirst, hsecond, rest, rfl⟩ := h
  obtain ⟨hfirst', hsecond', rest', heq⟩ := h'
  obtain ⟨rfl, htail⟩ := encodeString_append_inj hfirst hfirst' heq
  exact ⟨rfl, (encodeString_append_inj hsecond hsecond' htail).1.symm⟩

/-- The payload holds a raw signature if it begins with two strings that fit into the halves of one
without their leading zeros. -/
theorem halvesOfPair?_eq_some_iff {c : Curve} {payload raw : Bytes} :
    halvesOfPair? c payload = some raw ↔ ∃ first second, BeginsWith payload first second ∧
      ((Bytes.dropZeros first).length ≤ c.coordinateSize ∧
        (Bytes.dropZeros second).length ≤ c.coordinateSize) ∧
      raw = Bytes.leftZeros c.coordinateSize (Bytes.dropZeros first) ++
        Bytes.leftZeros c.coordinateSize (Bytes.dropZeros second) := by
  unfold halvesOfPair?
  constructor
  · intro h
    obtain ⟨⟨first, r⟩, hfirst, h⟩ := Option.bind_eq_some_iff.mp h
    obtain ⟨⟨second, rest⟩, hsecond, h⟩ := Option.bind_eq_some_iff.mp h
    obtain ⟨_, hsize, hraw⟩ := Option.bind_eq_some_iff.mp h
    obtain ⟨hfits, rfl⟩ := string_eq_some_iff.mp hfirst
    obtain ⟨hfits', rfl⟩ := string_eq_some_iff.mp hsecond
    exact ⟨first, second, ⟨hfits, hfits', rest, rfl⟩, (Option.guard_eq_some' ()).mp hsize,
      (Option.some.inj hraw).symm⟩
  · rintro ⟨first, second, ⟨hfits, hfits', rest, rfl⟩, hsize, rfl⟩
    have hfirst := string_encodeString hfits (encodeString second ++ rest)
    have hsecond := string_encodeString hfits' rest
    exact Option.bind_eq_some_iff.mpr ⟨_, hfirst, Option.bind_eq_some_iff.mpr ⟨_, hsecond,
      Option.bind_eq_some_iff.mpr ⟨(), (Option.guard_eq_some' ()).mpr hsize, rfl⟩⟩⟩

/-- The integers of a raw signature of two halves are put back into halves. -/
theorem halvesOfPair?_pairOfHalves {c : Curve} {raw : Bytes}
    (hraw : raw.length = 2 * c.coordinateSize) :
    halvesOfPair? c (pairOfHalves raw) = some raw := by
  obtain ⟨r, s, hr, hs, rfl⟩ := exists_halves hraw
  have hrzeros := Bytes.leftZeros_dropZeros r
  have hszeros := Bytes.leftZeros_dropZeros s
  rw [hr] at hrzeros
  rw [hs] at hszeros
  have hrlen := Bytes.length_dropZeros_le r
  have hslen := Bytes.length_dropZeros_le s
  refine halvesOfPair?_eq_some_iff.mpr ⟨(Mpint.unsigned r).payload, (Mpint.unsigned s).payload,
    ⟨fits_payload_of_le (Nat.le_of_eq hr), fits_payload_of_le (Nat.le_of_eq hs), [], ?_⟩, ?_, ?_⟩
  · rw [pairOfHalves_append (hr.trans hs.symm), List.append_nil]
  · rw [Mpint.dropZeros_payload, Mpint.dropZeros_payload]
    omega
  · rw [Mpint.dropZeros_payload, Mpint.dropZeros_payload, hrzeros, hszeros]

/-- Both halves have the size of a coordinate and the values of the two strings. -/
theorem halves_values {c : Curve} {payload raw first second : Bytes}
    (h : halvesOfPair? c payload = some raw) (hpair : BeginsWith payload first second) :
    raw.length = 2 * c.coordinateSize ∧
      Bytes.toNat (raw.take c.coordinateSize) = Bytes.toNat first ∧
      Bytes.toNat (raw.drop c.coordinateSize) = Bytes.toNat second := by
  obtain ⟨first', second', hpair', ⟨hr, hs⟩, rfl⟩ := halvesOfPair?_eq_some_iff.mp h
  obtain ⟨rfl, rfl⟩ := hpair.unique hpair'
  have hrsize := Bytes.length_leftZeros hr
  have hssize := Bytes.length_leftZeros hs
  refine ⟨?_, ?_, ?_⟩
  · rw [List.length_append, hrsize, hssize]
    omega
  · rw [List.take_left' hrsize, Bytes.toNat_leftZeros, Bytes.toNat_dropZeros]
  · rw [List.drop_left' hrsize, Bytes.toNat_leftZeros, Bytes.toNat_dropZeros]

/-- A raw signature is put back together from its two integers. A payload gives a raw signature
exactly if it begins with two strings that fit into the halves of one without their leading zeros;
the halves then have the values of the strings, and the raw signature is wrapped and taken apart
again without a change. -/
theorem halvesOfPair?_reencoded (c : Curve) :
    (∀ raw : Bytes, raw.length = 2 * c.coordinateSize →
      halvesOfPair? c (pairOfHalves raw) = some raw) ∧
    ∀ payload : Bytes,
      ((halvesOfPair? c payload).isSome = true ↔ ∃ first second, BeginsWith payload first second ∧
        (Bytes.dropZeros first).length ≤ c.coordinateSize ∧
          (Bytes.dropZeros second).length ≤ c.coordinateSize) ∧
      ∀ raw, halvesOfPair? c payload = some raw →
        raw ≠ [] ∧ raw.length = 2 * c.coordinateSize ∧
        (∀ first second, BeginsWith payload first second →
          Bytes.toNat (raw.take c.coordinateSize) = Bytes.toNat first ∧
            Bytes.toNat (raw.drop c.coordinateSize) = Bytes.toNat second) ∧
        halvesOfPair? c (pairOfHalves raw) = some raw := by
  refine ⟨fun raw => halvesOfPair?_pairOfHalves, fun payload => ⟨?_, fun raw h => ?_⟩⟩
  · rw [Option.isSome_iff_exists]
    constructor
    · rintro ⟨raw, h⟩
      obtain ⟨first, second, hpair, hsize, -⟩ := halvesOfPair?_eq_some_iff.mp h
      exact ⟨first, second, hpair, hsize⟩
    · rintro ⟨first, second, hpair, hsize⟩
      exact ⟨_, halvesOfPair?_eq_some_iff.mpr ⟨first, second, hpair, hsize, rfl⟩⟩
  · obtain ⟨first, second, hpair, -, -⟩ := halvesOfPair?_eq_some_iff.mp h
    have hlength := (halves_values h hpair).1
    have hne : raw ≠ [] := by
      rintro rfl
      have hpos := coordinateSize_pos c
      rw [List.length_nil] at hlength
      omega
    refine ⟨hne, hlength, ?_, halvesOfPair?_pairOfHalves hlength⟩
    intro first second hpair
    exact (halves_values h hpair).2

/-- A signature of the largest curve whose halves begin with a byte that needs a zero in front and
with zeros. -/
def edgeRaw : Bytes := (0x80 :: List.replicate 65 7) ++ (List.replicate 65 0 ++ [0x80])

/-- The integers 5, behind two zeros, and 0, with a byte behind them. -/
def loosePair : Bytes := encodeString [0, 0, 5] ++ (encodeString [] ++ [9])

theorem halvesOfPair?_reencoded_edge :
    edgeRaw.length = 2 * Curve.p521.coordinateSize ∧
      (pairOfHalves edgeRaw).length = 77 ∧
      halvesOfPair? .p521 (pairOfHalves edgeRaw) = some edgeRaw ∧
      (halvesOfPair? .p256 loosePair).isSome = true ∧
      ∃ raw, halvesOfPair? .p256 loosePair = some raw ∧ raw.length = 64 ∧
        Bytes.toNat (raw.take 32) = 5 ∧ Bytes.toNat (raw.drop 32) = 0 ∧
        halvesOfPair? .p256 (pairOfHalves raw) = some raw := by
  have hlength : edgeRaw.length = 2 * Curve.p521.coordinateSize := by decide +kernel
  have hpair : BeginsWith loosePair [0, 0, 5] [] := ⟨by decide, by decide, [9], rfl⟩
  obtain ⟨hsome, hraw⟩ := (halvesOfPair?_reencoded .p256).2 loosePair
  have hread := hsome.mpr ⟨_, _, hpair, by decide, by decide⟩
  obtain ⟨raw, h⟩ := Option.isSome_iff_exists.mp hread
  obtain ⟨-, hsize, hvalues, hagain⟩ := hraw raw h
  obtain ⟨hfirst, hsecond⟩ := hvalues _ _ hpair
  have hedge := (halvesOfPair?_reencoded .p521).1 edgeRaw hlength
  exact ⟨hlength, by decide +kernel, hedge, hread, raw, h, hsize, hfirst, hsecond, hagain⟩

/-- A raw signature that can be written as a string can be wrapped. -/
theorem fits_payload_ofRaw {t : SignatureType} {raw : Bytes} (hfits : Fits raw)
    (hraw : ∀ c, t = .ecdsa c → raw.length = 2 * c.coordinateSize) :
    Fits (ofRaw t raw).payload := by
  cases t with
  | ecdsa c => exact fits_pairOfHalves (hraw c rfl)
  | _ => exact hfits

theorem raw?_ofRaw {k : KeyType} {t : SignatureType} {raw : Bytes} (hmakes : k.makes t = true)
    (hraw : ∀ c, t = .ecdsa c → raw.length = 2 * c.coordinateSize) :
    (ofRaw t raw).raw? k = some raw := by
  obtain rfl := KeyType.makes_iff.mp hmakes
  cases t with
  | ecdsa c => exact halvesOfPair?_pairOfHalves (hraw c rfl)
  | _ => rfl

end SignatureBlob

/-! ## Signing and verifying with blobs -/

theorem Primitive.Ecdsa.length_of_sign {c : Curve} {scalar digest raw : Bytes}
    {random : RandomSource} (h : sign c scalar digest random = some raw) :
    raw.length = 2 * c.coordinateSize := by
  unfold sign at h
  obtain ⟨i, hpiece, -⟩ := RandomSource.draw?_eq_some h
  obtain ⟨k, -, hraw⟩ := Option.bind_eq_some_iff.mp hpiece
  unfold signWith at hraw
  dsimp only at hraw
  split at hraw
  · cases hraw
  · cases hraw
    rw [List.length_append, Bytes.length_ofNat, Bytes.length_ofNat]
    omega

namespace Suite

/-- Raw ECDSA signatures are two halves of the size of a coordinate. -/
def SignsInHalves (s : Suite) : Prop :=
  ∀ c point scalar message random raw,
    s.sign (.ecdsa c point scalar) (.ecdsa c) message random = some raw →
      raw.length = 2 * c.coordinateSize

theorem SignsInHalves.length_raw {s : Suite} (hs : s.SignsInHalves) {k : PrivateKey}
    {t : SignatureType} {message raw : Bytes} {random : RandomSource}
    (hmakes : k.type.makes t = true) (hsign : s.sign k t message random = some raw) (c : Curve)
    (ht : t = .ecdsa c) : raw.length = 2 * c.coordinateSize := by
  subst ht
  have htype : KeyType.ecdsa c = k.type := KeyType.makes_iff.mp hmakes
  cases k with
  | ecdsa c' point scalar =>
    cases htype
    exact hs c point scalar message random raw hsign
  | ed25519 seed key => cases htype
  | rsa e n d p q iqmp => cases htype

theorem signsInHalves_standard : standard.SignsInHalves := by
  intro c point scalar message random raw hsign
  have hecdsa : ∃ h : HashType,
      Primitive.Ecdsa.sign c scalar (h.digest message) random = some raw := by
    cases c <;> exact ⟨_, hsign⟩
  obtain ⟨h, hecdsa⟩ := hecdsa
  exact Primitive.Ecdsa.length_of_sign hecdsa

theorem signBlob_eq_some_iff {s : Suite} {k : PrivateKey} {t : SignatureType}
    {message blob : Bytes} {random : RandomSource} :
    (s.signBlob k t message random).value = some blob ↔
      k.type.makes t = true ∧ ∃ raw, s.sign k t message random = some raw ∧
        blob = (SignatureBlob.ofRaw t raw).encode := by
  unfold signBlob
  rw [Logged.value_bind, Logged.value_pure, Option.map_eq_some_iff, signRaw]
  by_cases hmakes : k.type.makes t = true
  · rw [if_pos hmakes, and_iff_right hmakes]
    cases s.sign k t message random with
    | none =>
      dsimp only
      rw [Logged.value_ite, Logged.value_bind, Logged.value_pure, ite_self]
      exact ⟨nofun, nofun⟩
    | some raw =>
      constructor
      · intro h
        obtain ⟨raw', hraw, rfl⟩ := h
        exact ⟨raw', hraw, rfl⟩
      · intro h
        obtain ⟨raw', hraw, rfl⟩ := h
        exact ⟨raw', hraw, rfl⟩
  · rw [if_neg hmakes]
    constructor
    · intro h
      obtain ⟨raw, hraw, -⟩ := h
      cases hraw
    · intro h
      exact absurd h.1 hmakes

/-- A blob made from a raw signature verifies if the raw signature does. -/
theorem verifyBlob_ofRaw {s : Suite} {k : PublicKey} {t : SignatureType} {message raw : Bytes}
    (hmakes : k.type.makes t = true)
    (hraw : ∀ c, t = .ecdsa c → raw.length = 2 * c.coordinateSize)
    (hfits : Fits (SignatureBlob.ofRaw t raw).payload) :
    s.verifyBlob k message (SignatureBlob.ofRaw t raw).encode = s.verify k t message raw := by
  have htype : (SignatureBlob.ofRaw t raw).type? = some t := t.ofName?_name
  unfold verifyBlob
  rw [SignatureBlob.parse_ofRaw_of_fits_payload hfits]
  dsimp only
  rw [htype, SignatureBlob.raw?_ofRaw hmakes hraw]
  dsimp only
  rw [hmakes, Bool.true_and]

/-- A blob that a private key signs verifies with its public half if the raw signature does. -/
theorem verifyBlob_publicHalf {s : Suite} (hs : s.SignsInHalves) {k : PrivateKey}
    {t : SignatureType} {message raw : Bytes} {random : RandomSource}
    (hmakes : k.type.makes t = true) (hsign : s.sign k t message random = some raw)
    (hfits : Fits (SignatureBlob.ofRaw t raw).encode) :
    s.verifyBlob k.publicHalf message (SignatureBlob.ofRaw t raw).encode =
      s.verify k.publicHalf t message raw := by
  have hpublic : k.publicHalf.type.makes t = true := by
    rw [PrivateKey.type_publicHalf]
    exact hmakes
  exact verifyBlob_ofRaw hpublic (hs.length_raw hmakes hsign)
    (SignatureBlob.fits_payload_of_encode hfits)

end Suite

end SshCert

import SshCert.Proofs.Der.Reading
import SshCert.Proofs.Key.Blob
import SshCert.Proofs.Text.Pem
import SshCert.Suite.Standard

/-
  What a reader finds in an exported public key.
  A strict reader of DER finds the algorithm of the key and its bits, and in these the numbers or
  the bytes of the key (`PublicKey.reads_subjectInfo`, `PublicKey.heldIn_keyBits`). As the
  algorithm tells the type and the bits the values, keys with the same text have the same blob
  (`PublicKey.subjectInfo_faithful`).
-/

namespace SshCert

open Primitive

namespace Primitive.Ecdsa

/-- An uncompressed point is its form and both coordinates, each with all the bytes of the field. -/
theorem eq_of_point?_eq_some {curve : Curve} {b : Bytes} {x y : Nat}
    (h : point? curve b = some (x, y)) :
    b = 4 :: (Bytes.ofNat curve.coordinateSize x ++ Bytes.ofNat curve.coordinateSize y) ∧
      (Weierstrass.params curve).onCurve x y = true := by
  cases b with
  | nil => cases h
  | cons form xy =>
    simp only [point?, Option.ite_none_right_eq_some, Option.some.injEq, Prod.mk.injEq] at h
    obtain ⟨⟨hlength, rfl, hcurve⟩, rfl, rfl⟩ := h
    refine ⟨?_, hcurve⟩
    rw [List.length_cons, Curve.pointSize] at hlength
    have hx : (xy.take curve.coordinateSize).length = curve.coordinateSize :=
      List.length_take_of_le (by omega)
    have hy : (xy.drop curve.coordinateSize).length = curve.coordinateSize := by
      rw [List.length_drop]
      omega
    have htake := Bytes.ofNat_toNat (xy.take curve.coordinateSize)
    have hdrop := Bytes.ofNat_toNat (xy.drop curve.coordinateSize)
    rw [hx] at htake
    rw [hy] at hdrop
    rw [htake, hdrop, List.take_append_drop]

end Primitive.Ecdsa

namespace PublicKey

/-! ## The algorithm -/

/-- The arcs of the named curves. -/
def curveArcs : Curve → List Nat
  | .p256 => [1, 2, 840, 10045, 3, 1, 7]
  | .p384 => [1, 3, 132, 0, 34]
  | .p521 => [1, 3, 132, 0, 35]

/-- What the identifier of the key's algorithm says. -/
def algorithmItems : PublicKey → List Der.Item
  | .ed25519 _ => [.oid [1, 3, 101, 112]]
  | .rsa _ _ => [.oid [1, 2, 840, 113549, 1, 1, 1], .null]
  | .ecdsa c _ => [.oid [1, 2, 840, 10045, 2, 1], .oid (curveArcs c)]

theorem arcs?_ofCurve (c : Curve) : Der.arcs? (Der.ofCurve c) = some (curveArcs c) := by
  cases c <;> decide

theorem curveArcs_injective : Function.Injective curveArcs := by
  intro c c' h
  cases c <;> cases c' <;> first | rfl | cases h

theorem reads_algorithmInfo {k : PublicKey} (h : Der.Fits (Der.sequence k.algorithmInfo)) :
    Der.Reads (Der.sequence k.algorithmInfo) (.sequence k.algorithmItems) := by
  refine Der.reads_sequence h ?_
  cases k with
  | ed25519 key => exact .cons (Der.reads_oid (h.of_mem (by simp [algorithmInfo])) (by decide)) .nil
  | rsa e n =>
    exact .cons (Der.reads_oid (h.of_mem (by simp [algorithmInfo])) (by decide))
      (.cons Der.reads_null .nil)
  | ecdsa c point =>
    exact .cons (Der.reads_oid (h.of_mem (by simp [algorithmInfo])) (by decide))
      (.cons (Der.reads_oid (h.of_mem (by simp [algorithmInfo])) (arcs?_ofCurve c)) .nil)

/-- The algorithm tells the type of the key. -/
theorem type_eq_of_algorithmItems_eq {k k' : PublicKey}
    (h : k.algorithmItems = k'.algorithmItems) : k.type = k'.type := by
  cases k <;> cases k' <;> simp [algorithmItems, type] at h ⊢
  exact curveArcs_injective h

/-! ## The bits -/

/-- How the bits hold the values of the key: an Ed25519 key is its 32 bytes, the numbers of an RSA
key are two integers of a sequence, and the point of an ECDSA key is written with both coordinates.
-/
def HeldIn (bits : Bytes) : PublicKey → Prop
  | .ed25519 key => bits = key ∧ bits.length = 32
  | .rsa e n =>
    Der.decode bits = some (.sequence [.integer (Bytes.toNat n), .integer (Bytes.toNat e)])
  | .ecdsa c point =>
    bits = point ∧ ∃ x y,
      bits = 4 :: (Bytes.ofNat c.coordinateSize x ++ Bytes.ofNat c.coordinateSize y) ∧
      (Weierstrass.params c).onCurve x y = true

theorem heldIn_keyBits {k : PublicKey} (hk : Suite.standard.acceptsPublic k = true)
    (h : Der.Fits k.keyBits) : k.HeldIn k.keyBits := by
  cases k with
  | ed25519 key => exact ⟨rfl, beq_iff_eq.mp hk⟩
  | rsa e n =>
    apply Der.Reads.decode
    exact Der.reads_sequence h
      (.cons (Der.reads_integer (h.of_mem (by simp)))
        (.cons (Der.reads_integer (h.of_mem (by simp))) .nil))
  | ecdsa c point =>
    obtain ⟨⟨x, y⟩, hpoint⟩ := Option.isSome_iff_exists.mp hk
    exact ⟨rfl, x, y, Ecdsa.eq_of_point?_eq_some hpoint⟩

theorem encode_rsa_eq_of_toNat_eq {e n e' n' : Bytes} (he : Bytes.toNat e = Bytes.toNat e')
    (hn : Bytes.toNat n = Bytes.toNat n') : (rsa e n).encode = (rsa e' n').encode := by
  rw [encode_rsa, encode_rsa, Mpint.payload, Mpint.payload, Mpint.payload, Mpint.payload,
    Bytes.dropZeros_eq_of_toNat_eq he, Bytes.dropZeros_eq_of_toNat_eq hn]

/-- Keys of one type whose values are held in the same bits have the same blob. -/
theorem encode_eq_of_heldIn {k k' : PublicKey} {bits : Bytes} (htype : k.type = k'.type)
    (h : k.HeldIn bits) (h' : k'.HeldIn bits) : k.encode = k'.encode := by
  cases k <;> cases k' <;> simp only [type, reduceCtorEq, KeyType.ecdsa.injEq] at htype
  case ed25519.ed25519 => rw [← h.1, ← h'.1]
  case rsa.rsa =>
    have hsame := h.symm.trans h'
    simp only [Option.some.injEq, Der.Item.sequence.injEq, List.cons.injEq, Der.Item.integer.injEq,
      Int.natCast_inj, and_true] at hsame
    exact encode_rsa_eq_of_toNat_eq hsame.2 hsame.1
  case ecdsa.ecdsa => rw [htype, ← h.1, ← h'.1]

/-! ## The exported key -/

theorem reads_subjectInfo {k : PublicKey} (h : Der.Fits k.subjectInfo) :
    Der.Reads k.subjectInfo
      (.sequence [.sequence k.algorithmItems, .bitString 0 k.keyBits]) :=
  Der.reads_sequence h
    (.cons (reads_algorithmInfo (h.of_mem (by simp)))
      (.cons (Der.reads_bitString (h.of_mem (by simp))) .nil))

theorem fits_keyBits {k : PublicKey} (h : Der.Fits k.subjectInfo) : Der.Fits k.keyBits :=
  (h.of_mem (e := Der.bitString k.keyBits) (by simp)).content.of_le (Nat.le_succ _)

/-- An accepted key is exported in a form that a strict reader takes as a whole, if only there is a
length for it: a sequence of the algorithm, which names the family and the curve, and of bits that
hold the values of the key. Accepted keys that are exported as the same text have the same blob. -/
theorem subjectInfo_faithful {k : PublicKey} (hk : Suite.standard.acceptsPublic k = true)
    (hsize : Der.Fits k.subjectInfo) :
    (∃ bits, Der.decode k.subjectInfo =
        some (.sequence [.sequence k.algorithmItems, .bitString 0 bits]) ∧ k.HeldIn bits) ∧
      ∀ k', Suite.standard.acceptsPublic k' = true → k'.pem = k.pem → k'.encode = k.encode := by
  refine ⟨⟨k.keyBits, (reads_subjectInfo hsize).decode, heldIn_keyBits hk (fits_keyBits hsize)⟩,
    fun k' hk' hpem => ?_⟩
  have hinfo : k'.subjectInfo = k.subjectInfo := Pem.armour_injective _ hpem
  have hsize' : Der.Fits k'.subjectInfo := by rwa [hinfo]
  -- one text is read in one way
  have hsame := (reads_subjectInfo hsize').decode.symm.trans
    ((congrArg Der.decode hinfo).trans (reads_subjectInfo hsize).decode)
  simp only [Option.some.injEq, Der.Item.sequence.injEq, List.cons.injEq, Der.Item.bitString.injEq,
    and_true, true_and] at hsame
  obtain ⟨halgorithm, hbits⟩ := hsame
  have hheld := heldIn_keyBits hk' (fits_keyBits hsize')
  rw [hbits] at hheld
  exact encode_eq_of_heldIn (type_eq_of_algorithmItems_eq halgorithm) hheld
    (heldIn_keyBits hk (fits_keyBits hsize))

/-- A modulus of 128 bytes whose first bit is set. -/
def exportedModulus : Bytes := 0x80 :: List.replicate 127 1

/-- An RSA key with the modulus, and its values behind zeros that change nothing. -/
theorem subjectInfo_faithful_rsa :
    let k := rsa [1, 0, 1] exportedModulus
    let k' := rsa [0, 1, 0, 1] (0 :: exportedModulus)
    Suite.standard.acceptsPublic k = true ∧ Suite.standard.acceptsPublic k' = true ∧
      Der.Fits k.subjectInfo ∧ k'.pem = k.pem ∧ k'.encode = k.encode ∧
      ∃ bits, Der.decode k.subjectInfo =
          some (.sequence [.sequence [.oid [1, 2, 840, 113549, 1, 1, 1], .null],
            .bitString 0 bits]) ∧
        Der.decode bits =
          some (.sequence [.integer (Bytes.toNat exportedModulus), .integer 65537]) := by
  have hk : Suite.standard.acceptsPublic (rsa [1, 0, 1] exportedModulus) = true := by decide +kernel
  have hk' : Suite.standard.acceptsPublic (rsa [0, 1, 0, 1] (0 :: exportedModulus)) = true := by
    decide +kernel
  have hpem : (rsa [0, 1, 0, 1] (0 :: exportedModulus)).pem = (rsa [1, 0, 1] exportedModulus).pem :=
    rfl
  have hsize : Der.Fits (rsa [1, 0, 1] exportedModulus).subjectInfo := by
    decide +kernel
  obtain ⟨⟨bits, hwhole, hbits⟩, hsame⟩ := subjectInfo_faithful hk hsize
  exact ⟨hk, hk', hsize, hpem, hsame _ hk' hpem, bits, hwhole, hbits⟩

end PublicKey

end SshCert

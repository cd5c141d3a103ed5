import SshCert.Proofs.Wire.Mpint

/-
  The integers that bytes denote.
  Byte strings with the same unsigned value differ in leading zeros only
  (`Bytes.dropZeros_eq_of_toNat_eq`), so the two's complement forms of a number that is not
  negative are its payload behind any number of zeros (`Mpint.twosComplement_eq_toNat_iff`).
  Hence the payload of an unsigned integer is the shortest form there is, and what is read is
  written in a normal form with the same value (`Mpint.payload_normal_form`).
  The sign of a signed integer is not always kept: without its leading zeros a positive number
  whose next bit is set is read as a negative one (`Mpint.toInt_read_encode`).
-/

namespace SshCert

namespace Bytes

/-! ## Unsigned values -/

theorem toNat_replicate_append (k : Nat) (b : Bytes) :
    toNat (List.replicate k 0 ++ b) = toNat b := by
  induction k with
  | zero => rfl
  | succ k ih =>
    have hzero : toNat (0 :: (List.replicate k 0 ++ b)) = toNat (List.replicate k 0 ++ b) := rfl
    rw [List.replicate_succ, List.cons_append, hzero, ih]

@[simp] theorem toNat_dropZeros (b : Bytes) : toNat (dropZeros b) = toNat b := by
  have h := toNat_replicate_append (b.length - (dropZeros b).length) (dropZeros b)
  rw [replicate_append_dropZeros] at h
  exact h.symm

@[simp] theorem toNat_leftZeros (size : Nat) (b : Bytes) : toNat (leftZeros size b) = toNat b :=
  toNat_replicate_append _ b

/-- As many bytes with the same unsigned value are the same bytes. -/
theorem eq_of_toNat_eq {a b : Bytes} (hlength : a.length = b.length) (h : toNat a = toNat b) :
    a = b := by
  rw [← ofNat_toNat a, hlength, h, ofNat_toNat]

theorem dropZeros_eq_of_toNat_eq {a b : Bytes} (h : toNat a = toNat b) :
    dropZeros a = dropZeros b := by
  -- with zeros in front both have the same length
  have haligned : leftZeros (max a.length b.length) a = leftZeros (max a.length b.length) b := by
    apply eq_of_toNat_eq
    · simp only [leftZeros, List.length_leftpad]
      omega
    · rw [toNat_leftZeros, toNat_leftZeros, h]
  rw [← dropZeros_leftZeros (max a.length b.length) a, haligned, dropZeros_leftZeros]

end Bytes

namespace Mpint

/-! ## Two's complement values -/

theorem twosComplement_of_high {b : Bytes} (h : isHigh b = true) :
    twosComplement b = (Bytes.toNat b : Int) - Bytes.valueCount b.length := by
  simp [twosComplement, h]

theorem twosComplement_of_low {b : Bytes} (h : isHigh b = false) :
    twosComplement b = Bytes.toNat b := by
  simp [twosComplement, h]

/-- The first bit is the sign. -/
theorem twosComplement_neg_iff {b : Bytes} : twosComplement b < 0 ↔ isHigh b = true := by
  have hlt := Bytes.toNat_lt b
  cases hhigh : isHigh b with
  | true =>
    simp only [twosComplement_of_high hhigh, iff_true]
    omega
  | false =>
    simp only [twosComplement_of_low hhigh, Bool.false_eq_true, iff_false]
    omega

theorem isHigh_zeros_append (k : Nat) {b : Bytes} (h : isHigh b = false) :
    isHigh (List.replicate k 0 ++ b) = false := by
  cases k with
  | zero => exact h
  | succ k => rfl

theorem toNat_payload (d : Bytes) : Bytes.toNat (unsigned d).payload = Bytes.toNat d := by
  rw [← Bytes.toNat_dropZeros, dropZeros_payload, Bytes.toNat_dropZeros]

/-- The two's complement forms of a number that is not negative are its payload behind zeros. -/
theorem twosComplement_eq_toNat_iff {b d : Bytes} :
    twosComplement b = Bytes.toNat d ↔
      ∃ k, b = List.replicate k 0 ++ (unsigned d).payload := by
  constructor
  · intro h
    have hlow : isHigh b = false := by
      rw [← Bool.not_eq_true, ← twosComplement_neg_iff]
      omega
    have hvalue : Bytes.toNat b = Bytes.toNat d := by
      rw [twosComplement_of_low hlow] at h
      omega
    obtain ⟨k, hk⟩ : ∃ k, b = List.replicate k 0 ++ Bytes.dropZeros d :=
      ⟨_, by rw [← Bytes.dropZeros_eq_of_toNat_eq hvalue, Bytes.replicate_append_dropZeros]⟩
    by_cases hhigh : isHigh (Bytes.dropZeros d) = true
    · -- the sign of the bytes is clear, so that one of their zeros is the one of the payload
      rw [payload, if_pos hhigh]
      cases k with
      | zero =>
        rw [hk, List.replicate_zero, List.nil_append, hhigh] at hlow
        cases hlow
      | succ k => exact ⟨k, by rw [hk, List.replicate_succ', List.append_assoc]; rfl⟩
    · rw [payload, if_neg hhigh]
      exact ⟨k, hk⟩
  · rintro ⟨k, rfl⟩
    rw [twosComplement_of_low (isHigh_zeros_append k (isHigh_payload d)),
      Bytes.toNat_replicate_append, toNat_payload]

theorem twosComplement_payload_unsigned (d : Bytes) :
    twosComplement (unsigned d).payload = Bytes.toNat d :=
  twosComplement_eq_toNat_iff.mpr ⟨0, rfl⟩

/-- What is read has the two's complement value of the bytes it is read from. -/
theorem toInt_ofPayload (b : Bytes) : (ofPayload b).toInt = twosComplement b := by
  cases hhigh : isHigh b with
  | true => simp [ofPayload, hhigh, toInt]
  | false => simp [ofPayload, hhigh, toInt, twosComplement_of_low hhigh]

/-! ## The shortest form -/

/-- A byte whose first bit is set, behind one zero more than it needs. -/
def padded : Bytes := [0, 0, 0x80]

/-- Whether nothing but its leading zeros shows that a signed integer is not negative. -/
def LosesSign : Mpint → Prop
  | .unsigned _ => False
  | .signed d => isHigh d = false ∧ isHigh (Bytes.dropZeros d) = true

instance : DecidablePred LosesSign
  | .unsigned _ => isFalse id
  | .signed d => inferInstanceAs (Decidable (isHigh d = false ∧ isHigh (Bytes.dropZeros d) = true))

theorem fits_payload_of_length {m : Mpint} (h : m.data.length + 1 < Bytes.valueCount 4) :
    Wire.Fits m.payload := by
  cases m with
  | unsigned d => exact fits_payload h
  | signed d =>
    have hle := Bytes.length_dropZeros_le d
    simp only [data, payload, Wire.Fits] at h ⊢
    omega

/-- A positive number that loses its sign is taken for the negative one of the same bits. -/
theorem twosComplement_payload_of_losesSign {m : Mpint} (h : m.LosesSign) :
    twosComplement m.payload =
      m.toInt - Bytes.valueCount (Bytes.dropZeros m.data).length := by
  cases m with
  | unsigned d => exact absurd h id
  | signed d =>
    simp only [payload, toInt, data, twosComplement_of_high h.2, twosComplement_of_low h.1,
      Bytes.toNat_dropZeros]

theorem twosComplement_payload_of_not_losesSign {m : Mpint} (h : ¬ m.LosesSign) :
    twosComplement m.payload = m.toInt := by
  cases m with
  | unsigned d => exact twosComplement_payload_unsigned d
  | signed d =>
    simp only [payload, toInt]
    cases hhigh : isHigh d with
    | true => rw [dropZeros_of_isHigh hhigh]
    | false =>
      have hdropped : isHigh (Bytes.dropZeros d) = false :=
        Bool.eq_false_iff.mpr fun hset => h ⟨hhigh, hset⟩
      rw [twosComplement_of_low hhigh, twosComplement_of_low hdropped, Bytes.toNat_dropZeros]

/-- An integer that is written is read as the same number exactly if it does not lose its sign, and
every unsigned and every negative one keeps it. One that loses it is read as too small by the number
of values that its bytes can have. -/
theorem toInt_read_encode {m : Mpint} (h : m.data.length + 1 < Bytes.valueCount 4) :
    ∃ m', (∀ rest, read ((Wire.Value.mpint m).encode ++ rest) = some (m', rest)) ∧
      (m'.toInt = m.toInt ↔ ¬ m.LosesSign) ∧
      (m.LosesSign →
        m'.toInt = m.toInt - Bytes.valueCount (Bytes.dropZeros m.data).length) := by
  refine ⟨ofPayload m.payload, fun rest => ?_, ?_, ?_⟩
  · rw [Wire.encode_mpint]
    exact read_encodeString (fits_payload_of_length h) rest
  · rw [toInt_ofPayload]
    refine ⟨fun heq hloses => ?_, twosComplement_payload_of_not_losesSign⟩
    have hpos := Bytes.valueCount_pos (Bytes.dropZeros m.data).length
    rw [twosComplement_payload_of_losesSign hloses] at heq
    omega
  · rw [toInt_ofPayload]
    exact twosComplement_payload_of_losesSign

/-- A negative number of two bytes comes back as it was. -/
theorem toInt_read_encode_negative :
    (signed [0xff, 0x7f]).data.length + 1 < Bytes.valueCount 4 ∧
      ∃ m', (∀ rest, read ((Wire.Value.mpint (signed [0xff, 0x7f])).encode ++ rest) =
        some (m', rest)) ∧ m'.toInt = -129 := by
  have hlength : (signed [0xff, 0x7f]).data.length + 1 < Bytes.valueCount 4 := by decide
  obtain ⟨m', hread, hsame, -⟩ := toInt_read_encode hlength
  refine ⟨hlength, m', hread, ?_⟩
  rw [hsame.mpr (by decide)]
  decide

/-- The number 128 is written in one byte and read as -128, so not every integer is kept. -/
theorem toInt_read_encode_positive :
    (signed [0, 0x80]).toInt = 128 ∧
      read (Wire.Value.mpint (signed [0, 0x80])).encode = some (signed [0x80], []) ∧
      (signed [0x80]).toInt = -128 ∧
      ¬ ∀ m : Mpint, m.data.length + 1 < Bytes.valueCount 4 →
        ∃ m', read (Wire.Value.mpint m).encode = some (m', []) ∧ m'.toInt = m.toInt := by
  have hread : read (Wire.Value.mpint (signed [0, 0x80])).encode = some (signed [0x80], []) := by
    decide
  refine ⟨by decide, hread, by decide, ?_⟩
  intro h
  obtain ⟨m', hm', hsame⟩ := h (signed [0, 0x80]) (by decide)
  rw [hread] at hm'
  cases hm'
  exact absurd hsame (by decide)

end Mpint

end SshCert

import SshCert.Proofs.Wire.Reading

/-
  Leading zeros.
  Dropping and adding them changes neither the number nor what is left when they are dropped
  again: `dropZeros_leftZeros` and `leftZeros_dropZeros` are the two ways round, and
  `Mpint.dropZeros_payload` says that the payload of an unsigned integer holds its data. Bytes that
  are read and written again come back as they were exactly if they are the shortest form of a
  non-negative number (`Mpint.payload_dropZeros_eq_iff`).
-/

namespace SshCert

namespace Bytes

theorem dropZeros_zero_cons (b : Bytes) : dropZeros (0 :: b) = dropZeros b := rfl

theorem dropZeros_cons_of_ne {x : UInt8} (hx : x ≠ 0) (r : Bytes) : dropZeros (x :: r) = x :: r :=
  List.dropWhile_cons_of_neg (by rw [beq_iff_eq]; exact hx)

theorem dropZeros_replicate_append (k : Nat) (b : Bytes) :
    dropZeros (List.replicate k 0 ++ b) = dropZeros b := by
  induction k with
  | zero => rfl
  | succ k ih => rw [List.replicate_succ, List.cons_append, dropZeros_zero_cons, ih]

theorem length_dropZeros_le (b : Bytes) : (dropZeros b).length ≤ b.length :=
  (List.dropWhile_sublist _).length_le

/-- The bytes are their leading zeros and what is left without them. -/
theorem replicate_append_dropZeros (b : Bytes) :
    List.replicate (b.length - (dropZeros b).length) 0 ++ dropZeros b = b := by
  induction b with
  | nil => rfl
  | cons x r ih =>
    by_cases hx : x = 0
    · have hle := length_dropZeros_le r
      have hsize : r.length + 1 - (dropZeros r).length = r.length - (dropZeros r).length + 1 := by
        omega
      rw [hx, dropZeros_zero_cons, List.length_cons, hsize, List.replicate_succ,
        List.cons_append, ih]
    · rw [dropZeros_cons_of_ne hx, Nat.sub_self, List.replicate_zero, List.nil_append]

@[simp] theorem dropZeros_dropZeros (b : Bytes) : dropZeros (dropZeros b) = dropZeros b := by
  have h := dropZeros_replicate_append (b.length - (dropZeros b).length) (dropZeros b)
  rw [replicate_append_dropZeros] at h
  exact h.symm

theorem dropZeros_leftZeros (size : Nat) (b : Bytes) :
    dropZeros (leftZeros size b) = dropZeros b :=
  dropZeros_replicate_append _ b

theorem length_leftZeros {size : Nat} {b : Bytes} (h : b.length ≤ size) :
    (leftZeros size b).length = size := by
  simp [leftZeros, h]

theorem leftZeros_dropZeros (b : Bytes) : leftZeros b.length (dropZeros b) = b :=
  replicate_append_dropZeros b

end Bytes

namespace Mpint

/-- The payload of an unsigned integer holds its data up to leading zeros. -/
theorem dropZeros_payload (d : Bytes) :
    Bytes.dropZeros (unsigned d).payload = Bytes.dropZeros d := by
  rw [payload]
  split
  · rw [Bytes.dropZeros_zero_cons, Bytes.dropZeros_dropZeros]
  · rw [Bytes.dropZeros_dropZeros]

theorem length_payload_le (d : Bytes) : (unsigned d).payload.length ≤ d.length + 1 := by
  have hle := Bytes.length_dropZeros_le d
  rw [payload]
  split
  · rw [List.length_cons]
    omega
  · omega

/-- The zero byte in front still has room in the length. -/
theorem fits_payload {d : Bytes} (h : d.length + 1 < Bytes.valueCount 4) :
    Wire.Fits (unsigned d).payload :=
  Nat.lt_of_le_of_lt (length_payload_le d) h

/-- The payload of an unsigned integer is never taken for a negative number. -/
theorem isHigh_payload (d : Bytes) : isHigh (unsigned d).payload = false := by
  rw [payload]
  split
  · simp [isHigh]
  · next hlow => exact Bool.eq_false_iff.mpr hlow

/-- An unsigned integer is read back without its leading zeros. -/
theorem ofPayload_payload (d : Bytes) :
    ofPayload (unsigned d).payload = unsigned (Bytes.dropZeros d) := by
  rw [ofPayload, isHigh_payload, if_neg Bool.false_ne_true, dropZeros_payload]

theorem read_encodeString {b : Bytes} (h : Wire.Fits b) (rest : Bytes) :
    read (Wire.encodeString b ++ rest) = some (ofPayload b, rest) :=
  Wire.bind_eq_some_iff.mpr ⟨b, rest, Wire.string_encodeString h rest, rfl⟩

/-! ## The shortest form -/

/-- The bytes are the shortest two's complement form of a non-negative number: the first bit is
clear, and a zero byte stands in front only of a byte whose first bit is set. -/
def IsMinimal (b : Bytes) : Prop :=
  isHigh b = false ∧ (b.head? = some 0 → isHigh b.tail = true)

instance (b : Bytes) : Decidable (IsMinimal b) := inferInstanceAs (Decidable (_ ∧ _))

theorem isMinimal_zero_cons (r : Bytes) : IsMinimal (0 :: r) ↔ isHigh r = true := by
  simp [IsMinimal, isHigh]

theorem isMinimal_cons_of_ne {x : UInt8} (hx : x ≠ 0) (r : Bytes) :
    IsMinimal (x :: r) ↔ isHigh (x :: r) = false := by
  simp [IsMinimal, hx]

theorem dropZeros_of_isHigh {b : Bytes} (h : isHigh b = true) : Bytes.dropZeros b = b := by
  cases b with
  | nil => rfl
  | cons x r =>
    have hx : x ≠ 0 := by
      rintro rfl
      simp [isHigh] at h
    exact Bytes.dropZeros_cons_of_ne hx r

/-- What is read without its leading zeros is written as it stood exactly if that was minimal. -/
theorem payload_dropZeros_eq_iff {b : Bytes} :
    (unsigned (Bytes.dropZeros b)).payload = b ↔ IsMinimal b := by
  rw [payload, Bytes.dropZeros_dropZeros]
  cases b with
  | nil => simp [IsMinimal, Bytes.dropZeros, isHigh]
  | cons x r =>
    by_cases hx : x = 0
    · have hle := Bytes.length_dropZeros_le r
      rw [hx, Bytes.dropZeros_zero_cons, isMinimal_zero_cons]
      split
      · next hhigh =>
        rw [List.cons_inj_right]
        constructor
        · intro h
          rw [← h]
          exact hhigh
        · exact dropZeros_of_isHigh
      · next hlow =>
        constructor
        · intro h
          have hlen := congrArg List.length h
          rw [List.length_cons] at hlen
          omega
        · intro h
          rw [dropZeros_of_isHigh h] at hlow
          exact absurd h hlow
    · rw [Bytes.dropZeros_cons_of_ne hx, isMinimal_cons_of_ne hx]
      cases isHigh (x :: r) <;> simp

end Mpint

end SshCert

import SshCert.Proofs.Key.Parts
import SshCert.Proofs.Suite.Admission
import SshCert.Suite.Standard

/-
  The normal form of public key blobs.
  A blob that is read as a key may write the numbers of an RSA key in a form that is not the
  shortest one, and it may go on behind the fields. Writing the key again undoes both and nothing
  else: the written blob is read as the same key (`PublicKey.parse_encode_of_parse`), and it is the
  blob that was read exactly if nothing followed the fields and all numbers were minimal
  (`PublicKey.encode_eq_iff`). What a suite accepts is asked of the values only, so this carries
  over to loading (`Suite.loadPublic_normalises`).
-/

namespace SshCert

open Wire

namespace PublicKey

/-! ## What is written -/

/-- The strings that are written behind the name of the type. -/
def parts : PublicKey → List Bytes
  | .ed25519 key => [key]
  | .rsa e n => [(Mpint.unsigned e).payload, (Mpint.unsigned n).payload]
  | .ecdsa c point => [c.name, point]

theorem encode_eq_parts (k : PublicKey) :
    k.encode = encodeString k.type.name ++ encodeStrings k.parts := by
  cases k with
  | ed25519 key => simp [encode_ed25519, type, parts]
  | rsa e n => simp [encode_rsa, type, parts]
  | ecdsa c point => simp [encode_ecdsa, type, parts]

theorem encode_ne_nil (k : PublicKey) : k.encode ≠ [] := by
  rw [encode_eq_parts]
  exact List.append_ne_nil_of_left_ne_nil (encodeString_ne_nil _) _

section Held

variable {k : PublicKey} {held : List Bytes}

/-- A key that some row of strings holds is held by the row that is written. -/
theorem HeldBy.heldBy_parts (h : k.HeldBy held) : k.HeldBy k.parts := by
  cases k with
  | ed25519 key => exact ⟨rfl, h.2⟩
  | rsa e n =>
    obtain ⟨first, second, -, rfl, rfl⟩ := h
    refine ⟨_, _, rfl, ?_, ?_⟩ <;> rw [Mpint.dropZeros_payload, Bytes.dropZeros_dropZeros]
  | ecdsa c point => exact rfl

/-- A written number may be one byte longer than it was read. The length of the other strings makes
up for it. -/
theorem HeldBy.fits_parts (h : k.HeldBy held) (hfits : Fits (encodeStrings held)) :
    ∀ part ∈ k.parts, Fits part := by
  cases k with
  | ed25519 key =>
    obtain ⟨rfl, -⟩ := h
    exact fun part hpart => fits_of_mem hpart hfits
  | rsa e n =>
    obtain ⟨first, second, rfl, rfl, rfl⟩ := h
    have hroom : first.length + 1 < Bytes.valueCount 4 ∧
        second.length + 1 < Bytes.valueCount 4 := by
      simp only [Fits, encodeStrings_cons, encodeStrings_nil, List.length_append,
        length_encodeString, List.length_nil] at hfits
      omega
    have hwritten (b : Bytes) (hb : b.length + 1 < Bytes.valueCount 4) :
        Fits (Mpint.unsigned (Bytes.dropZeros b)).payload := by
      have hdropped := Bytes.length_dropZeros_le b
      exact Mpint.fits_payload (by omega)
    simp only [parts, List.forall_mem_cons]
    exact ⟨hwritten first hroom.1, hwritten second hroom.2, List.forall_mem_nil _⟩
  | ecdsa c point =>
    obtain rfl : held = [c.name, point] := h
    exact fun part hpart => fits_of_mem hpart hfits

/-- The row is written as it was read exactly if its numbers were minimal. -/
theorem HeldBy.parts_eq_iff (h : k.HeldBy held) :
    k.parts = held ↔ (k.type = .rsa → ∀ part ∈ held, Mpint.IsMinimal part) := by
  cases k with
  | ed25519 key =>
    obtain ⟨rfl, -⟩ := h
    simp [parts, type]
  | rsa e n =>
    obtain ⟨first, second, rfl, rfl, rfl⟩ := h
    simp [parts, type, Mpint.payload_dropZeros_eq_iff]
  | ecdsa c point =>
    obtain rfl : held = [c.name, point] := h
    simp [parts, type]

/-- A blob is written as it was read exactly if its row was and nothing followed it. -/
theorem HeldBy.encode_eq_iff (h : k.HeldBy held) (hheld : ∀ part ∈ held, Fits part)
    (hparts : ∀ part ∈ k.parts, Fits part) {rest : Bytes} :
    k.encode = encodeString k.type.name ++ (encodeStrings held ++ rest) ↔
      rest = [] ∧ k.parts = held := by
  have hlength : k.parts.length = held.length := h.heldBy_parts.length_eq.trans h.length_eq.symm
  rw [encode_eq_parts, List.append_cancel_left_eq]
  constructor
  · intro heq
    rw [← List.append_nil (encodeStrings k.parts)] at heq
    obtain ⟨hrow, hrest⟩ := encodeStrings_append_inj hlength hparts hheld heq
    exact ⟨hrest.symm, hrow⟩
  · rintro ⟨rfl, hrow⟩
    rw [hrow, List.append_nil]

end Held

/-! ## Reading and writing again -/

section Read

variable {b : Bytes} {k : PublicKey}

/-- The blob of a key that was read is read as the same key. -/
theorem parse_encode_of_parse (hb : Fits b) (h : parse b = .ok k) : parse k.encode = .ok k := by
  obtain ⟨held, rest, hheld, -, rfl⟩ := parse_eq_ok_iff.mp h
  have hrow : Fits (encodeStrings held) := by
    simp only [Fits, List.length_append] at hb ⊢
    omega
  refine parse_eq_ok_iff.mpr ⟨k.parts, [], hheld.heldBy_parts, hheld.fits_parts hrow, ?_⟩
  rw [List.append_nil, encode_eq_parts]

theorem parse_append_of_parse (h : parse b = .ok k) (tail : Bytes) : parse (b ++ tail) = .ok k := by
  obtain ⟨held, rest, hheld, hfits, rfl⟩ := parse_eq_ok_iff.mp h
  refine parse_eq_ok_iff.mpr ⟨held, rest ++ tail, hheld, hfits, ?_⟩
  simp only [List.append_assoc]

/-- The parts of a blob that was read, and when it is in normal form. -/
theorem encode_eq_iff (hb : Fits b) (h : parse b = .ok k) :
    ∃ held rest, k.HeldBy held ∧ b = encodeString k.type.name ++ (encodeStrings held ++ rest) ∧
      (k.encode = b ↔ rest = [] ∧ (k.type = .rsa → ∀ part ∈ held, Mpint.IsMinimal part)) := by
  obtain ⟨held, rest, hheld, hfits, rfl⟩ := parse_eq_ok_iff.mp h
  have hrow : Fits (encodeStrings held) := by
    simp only [Fits, List.length_append] at hb ⊢
    omega
  refine ⟨held, rest, hheld, rfl, ?_⟩
  rw [hheld.encode_eq_iff hfits (hheld.fits_parts hrow), hheld.parts_eq_iff]

end Read

end PublicKey

/-! ## Loading and writing again -/

namespace Suite

/-- A blob that is loaded and written again. The written blob is loaded as the same key, and so is
written as itself. It is the one that was loaded exactly if nothing followed the fields and, for an
RSA key, both numbers were minimal. Bytes behind a blob change neither the key nor what is
written. -/
theorem loadPublic_normalises {s : Suite} {b : Bytes} (hb : Fits b) {k : PublicKey}
    (hload : (s.loadPublic b).value = some k) :
    k.encode ≠ [] ∧
      (s.loadPublic k.encode).value = some k ∧
      (∃ held rest, k.HeldBy held ∧
        b = encodeString k.type.name ++ (encodeStrings held ++ rest) ∧
        (k.encode = b ↔ rest = [] ∧ (k.type = .rsa → ∀ part ∈ held, Mpint.IsMinimal part))) ∧
      ∀ tail, (s.loadPublic (b ++ tail)).value = some k := by
  obtain ⟨hparse, haccepts⟩ := loadPublic_eq_some_iff.mp hload
  have hagain : (s.loadPublic k.encode).value = some k :=
    loadPublic_eq_some_iff.mpr ⟨PublicKey.parse_encode_of_parse hb hparse, haccepts⟩
  have htail (tail : Bytes) : (s.loadPublic (b ++ tail)).value = some k :=
    loadPublic_eq_some_iff.mpr ⟨PublicKey.parse_append_of_parse hparse tail, haccepts⟩
  exact ⟨k.encode_ne_nil, hagain, PublicKey.encode_eq_iff hb hparse, htail⟩

namespace Sample

def modulus : Bytes := 0x81 :: List.replicate 10 0 ++ [1]

def key : PublicKey := .rsa [3] modulus

/-- The key with a zero too many in one number and one too few in the other, and with a byte behind
the fields. -/
def blob : Bytes := encodeString KeyType.rsa.name ++ (encodeStrings [[0, 3], modulus] ++ [7])

theorem loadPublic_blob : (standard.loadPublic blob).value = some key :=
  loadPublic_eq_some_iff.mpr
    ⟨PublicKey.parse_eq_ok_iff.mpr
      ⟨[[0, 3], modulus], [7], ⟨[0, 3], modulus, rfl, rfl, rfl⟩, by decide, rfl⟩, by decide +kernel⟩

end Sample

/-- A blob that is not in normal form in any of the three ways. -/
theorem loadPublic_normalises_rsa :
    Fits Sample.blob ∧ (standard.loadPublic Sample.blob).value = some Sample.key ∧
      Sample.key.encode =
        encodeString KeyType.rsa.name ++ encodeStrings [[3], 0 :: Sample.modulus] ∧
      (standard.loadPublic Sample.key.encode).value = some Sample.key ∧
      Sample.key.encode ≠ Sample.blob ∧
      (standard.loadPublic (Sample.blob ++ [8, 9])).value = some Sample.key := by
  have hfits : Fits Sample.blob := by decide
  obtain ⟨-, hagain, -, htail⟩ := loadPublic_normalises hfits Sample.loadPublic_blob
  exact ⟨hfits, Sample.loadPublic_blob, by decide, hagain, by decide, htail [8, 9]⟩

end Suite

end SshCert

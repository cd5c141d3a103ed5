import SshCert.Key.File
import SshCert.Proofs.Key.Blob

/-
  What key files give.
  Whatever the private section of a file holds, the public half of the key in it has the form
  that a blob would have given (`KeyFile.normal_of_parse`).
-/

namespace SshCert.KeyFile

open Wire

/-! ## Steps of the decoder -/

section Steps

variable {b : Bytes}

theorem part_eq_ok_iff {α : Type} {cause : Error} {r : Reader α} {p : α × Bytes} :
    part cause r b = .ok p ↔ r b = some p := by
  unfold part
  cases r b with
  | none => exact ⟨nofun, nofun⟩
  | some q => rw [Except.ok.injEq, Option.some.injEq]

theorem ensure_eq_ok_iff {cause : Error} {holds : Bool} {p : Unit × Bytes} :
    ensure cause holds b = .ok p ↔ holds = true ∧ p = ((), b) := by
  cases holds with
  | true =>
    rw [and_iff_right rfl]
    exact pure_eq_ok_iff
  | false =>
    constructor
    · intro h
      cases h
    · intro h
      cases h.1

end Steps

/-! ## The private section -/

section PrivateSection

variable {b : Bytes} {p : (PrivateKey × Bytes) × Bytes}

theorem normal_of_ed25519 (h : ed25519 b = .ok p) : p.1.1.publicHalf.Normal := by
  obtain ⟨parts, r, -, h⟩ := bind_eq_ok_iff.mp h
  split at h
  · obtain ⟨_, r', hsize, h⟩ := bind_eq_ok_iff.mp h
    cases pure_eq_ok_iff.mp h
    obtain ⟨hsize, -⟩ := ensure_eq_ok_iff.mp hsize
    rw [Bool.and_eq_true, beq_iff_eq] at hsize
    exact hsize.1
  · cases h

theorem normal_of_rsa (h : rsa b = .ok p) : p.1.1.publicHalf.Normal := by
  have hread := part_eq_ok_iff.mp h
  obtain ⟨n, r₁, -, hread⟩ := bind_eq_some_iff.mp hread
  obtain ⟨e, r₂, -, hread⟩ := bind_eq_some_iff.mp hread
  obtain ⟨d, r₃, -, hread⟩ := bind_eq_some_iff.mp hread
  obtain ⟨iqmp, r₄, -, hread⟩ := bind_eq_some_iff.mp hread
  obtain ⟨p', r₅, -, hread⟩ := bind_eq_some_iff.mp hread
  obtain ⟨q, r₆, -, hread⟩ := bind_eq_some_iff.mp hread
  obtain ⟨comment, r₇, -, hread⟩ := bind_eq_some_iff.mp hread
  cases pure_eq_some_iff.mp hread
  exact ⟨Bytes.dropZeros_dropZeros e, Bytes.dropZeros_dropZeros n⟩

theorem normal_of_ecdsa {c : Curve} (h : ecdsa c b = .ok p) : p.1.1.publicHalf.Normal := by
  obtain ⟨parts, r, -, h⟩ := bind_eq_ok_iff.mp h
  split at h
  · obtain ⟨_, r', -, h⟩ := bind_eq_ok_iff.mp h
    cases pure_eq_ok_iff.mp h
    exact trivial
  · cases h

theorem normal_of_privateSection (h : privateSection b = .ok p) : p.1.1.publicHalf.Normal := by
  obtain ⟨check₁, r₁, -, h⟩ := bind_eq_ok_iff.mp h
  obtain ⟨check₂, r₂, -, h⟩ := bind_eq_ok_iff.mp h
  obtain ⟨_, r₃, -, h⟩ := bind_eq_ok_iff.mp h
  obtain ⟨name, r₄, -, h⟩ := bind_eq_ok_iff.mp h
  cases htype : KeyType.ofName? name with
  | none =>
    rw [htype] at h
    cases h
  | some type =>
    rw [htype] at h
    cases type with
    | ed25519 => exact normal_of_ed25519 h
    | rsa => exact normal_of_rsa h
    | ecdsa c => exact normal_of_ecdsa h
    | dss => cases h

end PrivateSection

/-! ## Whole files -/

theorem normal_of_parseData {data : Bytes} {p : PrivateKey × Bytes} (h : parseData data = .ok p) :
    p.1.publicHalf.Normal := by
  unfold parseData at h
  cases hcontainer : container data with
  | error e =>
    rw [hcontainer] at h
    cases h
  | ok inner =>
    rw [hcontainer] at h
    change (privateSection inner.1 >>= fun result => pure result.1) = .ok p at h
    cases hsection : privateSection inner.1 with
    | error e =>
      rw [hsection] at h
      cases h
    | ok result =>
      rw [hsection] at h
      obtain rfl : result.1 = p := Except.ok.inj h
      exact normal_of_privateSection hsection

/-- The public half of a key in a file has the form of a key that is read from a blob. -/
theorem normal_of_parse {text : Bytes} {p : PrivateKey × Bytes} (h : parse text = .ok p) :
    p.1.publicHalf.Normal := by
  unfold parse at h
  split at h
  · cases h
  · split at h
    · cases h
    · exact normal_of_parseData h

end SshCert.KeyFile

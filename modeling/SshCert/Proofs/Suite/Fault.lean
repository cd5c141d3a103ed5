import SshCert.Proofs.Key.Armour
import SshCert.Proofs.Key.Contents
import SshCert.Proofs.Suite.Loading
import SshCert.Suite.Standard

/-
  Divisions by zero while a private key is made.
  The private exponent of an RSA key is reduced modulo both primes less one before any of the
  numbers is checked. That divides by zero exactly if one of the primes is one
  (`Rsa.Private.exponents?_eq_none_iff`), and a file can hold such numbers.
  `Suite.loadStandard?_isSome_iff` says that nothing else keeps a file from being loaded or refused
  with a line.
-/

namespace SshCert

namespace Primitive.Rsa.Private

variable {k : Private}

theorem exponentModuli_eq_zero_iff :
    (k.exponentModuli.1 = 0 ↔ k.p = 1) ∧ (k.exponentModuli.2 = 0 ↔ k.q = 1) := by
  unfold exponentModuli
  omega

/-- Reducing the exponent divides by zero if one of the primes is one. -/
theorem exponents?_eq_none_iff : k.exponents? = none ↔ k.p = 1 ∨ k.q = 1 := by
  rw [← exponentModuli_eq_zero_iff.1, ← exponentModuli_eq_zero_iff.2]
  unfold exponents? remainder?
  by_cases hp : k.exponentModuli.1 = 0
  · simp [hp]
  · by_cases hq : k.exponentModuli.2 = 0
    · simp [hp, hq]
    · simp [hp, hq]

end Primitive.Rsa.Private

namespace KeyFile

/-- Whether the file holds an RSA key one of whose primes is one. -/
def HasUnitPrime (text : Bytes) : Prop :=
  ∃ e n d p q iqmp comment, parse text = .ok (.rsa e n d p q iqmp, comment) ∧
    (Bytes.toNat p = 1 ∨ Bytes.toNat q = 1)

end KeyFile

namespace Suite

open KeyFile Primitive

/-- An RSA key is made unless one of its primes is one, whatever else is wrong with its numbers. -/
theorem standardMakes?_rsa (e n d p q iqmp : Bytes) :
    standardMakes? (.rsa e n d p q iqmp) =
      if Bytes.toNat p = 1 ∨ Bytes.toNat q = 1 then none
      else some (rsaNumbers e n d p q iqmp).isValid := by
  have hfault : (rsaNumbers e n d p q iqmp).exponents? = none ↔
      Bytes.toNat p = 1 ∨ Bytes.toNat q = 1 := Rsa.Private.exponents?_eq_none_iff
  unfold standardMakes?
  by_cases hprimes : Bytes.toNat p = 1 ∨ Bytes.toNat q = 1
  · simp [hprimes, hfault.mpr hprimes]
  · obtain ⟨exponents, hexponents⟩ := Option.ne_none_iff_exists'.mp (mt hfault.mp hprimes)
    simp [hprimes, hexponents]

/-- Only RSA keys are not made. -/
theorem standardMakes?_of_type_ne {k : PrivateKey} (h : k.type ≠ .rsa) :
    standardMakes? k = some (standard.acceptsPrivate k) := by
  cases k with
  | ed25519 seed key => rfl
  | rsa e n d p q iqmp => exact absurd rfl h
  | ecdsa c point scalar => rfl

/-- What is made is a key exactly if the suite accepts its values. -/
theorem standardMakes?_eq_some {k : PrivateKey} {valid : Bool} (h : standardMakes? k = some valid) :
    valid = standard.acceptsPrivate k := by
  cases k with
  | ed25519 seed key => exact (Option.some.inj h).symm
  | rsa e n d p q iqmp =>
    rw [standardMakes?_rsa, Option.ite_none_left_eq_some] at h
    exact (Option.some.inj h.2).symm
  | ecdsa c point scalar => exact (Option.some.inj h).symm

variable {text : Bytes}

theorem loadStandard?_of_error {cause : Error} (h : parse text = .error cause) :
    loadStandard? text = some ⟨{}, [cause.line]⟩ := by
  unfold loadStandard?
  rw [loadPrivate_of_error h, h]

theorem loadStandard?_of_ok {k : PrivateKey} {comment : Bytes}
    (h : parse text = .ok (k, comment)) :
    loadStandard? text = (standardMakes? k).map fun _ => standard.loadPrivate text := by
  unfold loadStandard?
  rw [h]

theorem loadStandard?_of_rsa {e n d p q iqmp comment : Bytes}
    (h : parse text = .ok (.rsa e n d p q iqmp, comment)) :
    loadStandard? text =
      if Bytes.toNat p = 1 ∨ Bytes.toNat q = 1 then none
      else some (if (rsaNumbers e n d p q iqmp).isValid then
        ⟨⟨some (.rsa e n d p q iqmp), comment⟩, [loadedLine .rsa comment]⟩
      else ⟨⟨none, comment⟩, [refusedLine .rsa]⟩) := by
  rw [loadStandard?_of_ok h, standardMakes?_rsa, loadPrivate_of_ok h]
  by_cases hprimes : Bytes.toNat p = 1 ∨ Bytes.toNat q = 1
  · rw [if_pos hprimes, if_pos hprimes, Option.map_none]
  · rw [if_neg hprimes, if_neg hprimes, Option.map_some]
    rfl

/-- A file is not loaded to an end exactly if it holds an RSA key with such a prime. -/
theorem loadStandard?_eq_none_iff : loadStandard? text = none ↔ HasUnitPrime text := by
  constructor
  · intro h
    cases hparse : parse text with
    | error cause =>
      rw [loadStandard?_of_error hparse] at h
      cases h
    | ok result =>
      obtain ⟨k, comment⟩ := result
      cases k with
      | rsa e n d p q iqmp =>
        refine ⟨e, n, d, p, q, iqmp, comment, hparse, ?_⟩
        by_contra hprimes
        rw [loadStandard?_of_rsa hparse, if_neg hprimes] at h
        cases h
      | ed25519 seed key =>
        rw [loadStandard?_of_ok hparse, standardMakes?_of_type_ne (by simp [PrivateKey.type])] at h
        cases h
      | ecdsa c point scalar =>
        rw [loadStandard?_of_ok hparse, standardMakes?_of_type_ne (by simp [PrivateKey.type])] at h
        cases h
  · intro h
    obtain ⟨e, n, d, p, q, iqmp, comment, hparse, hprimes⟩ := h
    rw [loadStandard?_of_rsa hparse, if_pos hprimes]

theorem refusedLine_rsa : refusedLine .rsa = ⟨.debug, ascii "Invalid ssh-rsa private key"⟩ := by
  decide

/-- Loading divides by zero exactly if the file holds an RSA key one of whose primes is one. The
exponent of any other RSA key is reduced modulo numbers that are not zero, and the key is loaded or
refused with a line; any other file without a key leaves the line of the cause. -/
theorem loadStandard?_isSome_iff (text : Bytes) :
    ((loadStandard? text).isSome = true ↔ ¬ HasUnitPrime text) ∧
    (∀ e n d p q iqmp comment : Bytes, parse text = .ok (.rsa e n d p q iqmp, comment) →
      ¬ HasUnitPrime text →
        (rsaNumbers e n d p q iqmp).exponentModuli.1 ≠ 0 ∧
        (rsaNumbers e n d p q iqmp).exponentModuli.2 ≠ 0 ∧
        loadStandard? text = some (if (rsaNumbers e n d p q iqmp).isValid then
          ⟨⟨some (.rsa e n d p q iqmp), comment⟩, [loadedLine .rsa comment]⟩
        else ⟨⟨none, comment⟩, [⟨.debug, ascii "Invalid ssh-rsa private key"⟩]⟩)) ∧
    ∀ cause : Error, parse text = .error cause →
      loadStandard? text = some ⟨{}, [cause.line]⟩ := by
  refine ⟨?_, ?_, ?_⟩
  · rw [Option.isSome_iff_ne_none, Ne, loadStandard?_eq_none_iff]
  · intro e n d p q iqmp comment hparse hunit
    have hprimes : ¬ (Bytes.toNat p = 1 ∨ Bytes.toNat q = 1) :=
      fun h => hunit ⟨e, n, d, p, q, iqmp, comment, hparse, h⟩
    obtain ⟨hp, hq⟩ := not_or.mp hprimes
    refine ⟨mt Rsa.Private.exponentModuli_eq_zero_iff.1.mp hp,
      mt Rsa.Private.exponentModuli_eq_zero_iff.2.mp hq, ?_⟩
    rw [loadStandard?_of_rsa hparse, if_neg hprimes, refusedLine_rsa]
  · intro cause hparse
    exact loadStandard?_of_error hparse

namespace UnitPrime

/-- An RSA key whose first prime is one. -/
def contents : Contents :=
  .single [] KeyType.rsa.name [[7], [3], [5], [1], [1], [7], ascii "c"] [1, 2, 3]

def file : Bytes := Pem.armour label contents.encode

theorem wellFramed_contents : contents.WellFramed := by
  refine ⟨?_, ?_, ?_, ?_, ?_, ?_, ?_⟩ <;> decide +kernel

theorem parse_file : parse file = .ok (.rsa [3] [7] [5] [1] [7] [1], ascii "c") := by
  rw [file, parse_armour, wellFramed_contents.parseData_encode, contents,
    Contents.key_single]
  rfl

end UnitPrime

/-- The first modulus of this key is zero, and its file is not refused with a line. -/
theorem loadStandard?_unitPrime :
    parse UnitPrime.file = .ok (.rsa [3] [7] [5] [1] [7] [1], ascii "c") ∧
    (rsaNumbers [3] [7] [5] [1] [7] [1]).exponentModuli.1 = 0 ∧
    loadStandard? UnitPrime.file = none ∧
    loadStandard? UnitPrime.file ≠ some ⟨⟨none, ascii "c"⟩, [refusedLine .rsa]⟩ ∧
    ¬ ∀ text, (loadStandard? text).isSome = true := by
  have hnone : loadStandard? UnitPrime.file = none := by
    rw [loadStandard?_of_rsa UnitPrime.parse_file]
    rfl
  refine ⟨UnitPrime.parse_file, rfl, hnone, ?_, ?_⟩
  · rw [hnone]
    nofun
  · intro h
    have hsome := h UnitPrime.file
    rw [hnone] at hsome
    cases hsome

end Suite

end SshCert

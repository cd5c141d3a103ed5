import SshCert.Algorithm.Certified
import SshCert.Proofs.Wire.Reading

/-
  Names and what they name.
  Every algorithm is recognised by its own name, which is short enough to be written. A signature
  algorithm has the name of its keys or is one of the newer RSA ones (`SignatureType.name_cases`),
  and the one that a hint selects has the name in the hint (`KeyType.signatureFor?_eq_some`). The
  family of a certificate algorithm is the one whose stem it begins with
  (`Family.ofAlgorithm?_eq_some_iff`).
-/

namespace SshCert

open Wire

/-! ## Keys -/

namespace KeyType

theorem ofName?_name (k : KeyType) : ofName? k.name = some k := by
  cases k with
  | ecdsa c => cases c <;> decide
  | _ => decide

theorem fits_name (k : KeyType) : Fits k.name := by
  cases k with
  | ecdsa c => cases c <;> decide
  | _ => decide

end KeyType

theorem Curve.fits_name (c : Curve) : Fits c.name := by
  cases c <;> decide

/-! ## Signatures -/

namespace SignatureType

theorem ofName?_name (t : SignatureType) : ofName? t.name = some t := by
  cases t with
  | ecdsa c => cases c <;> decide
  | _ => decide

theorem name_of_ofName? {name : Bytes} {t : SignatureType} (h : ofName? name = some t) :
    t.name = name := by
  have hfound := List.find?_some h
  exact beq_iff_eq.mp hfound

theorem eq_of_name_eq {t u : SignatureType} (h : t.name = u.name) : t = u := by
  have hsame := ofName?_name t
  rw [h, ofName?_name] at hsame
  exact (Option.some.inj hsame).symm

theorem fits_name (t : SignatureType) : Fits t.name := by
  cases t with
  | ecdsa c => cases c <;> decide
  | _ => decide

/-- A signature algorithm has the name of its keys, or it is one of the newer RSA ones. -/
theorem name_cases (t : SignatureType) :
    t.name = t.keyType.name ∧ ¬ ascii "rsa-sha2-" <+: t.name ∨
      t.keyType = .rsa ∧ ascii "rsa-sha2-" <+: t.name := by
  simp only [← List.isPrefixOf_iff_prefix]
  cases t with
  | ecdsa c => cases c <;> decide
  | _ => decide

theorem length_name_le (t : SignatureType) : t.name.length ≤ 19 := by
  cases t with
  | ecdsa c => cases c <;> decide
  | _ => decide

end SignatureType

theorem KeyType.makes_iff {k : KeyType} {t : SignatureType} : k.makes t = true ↔ t.keyType = k :=
  beq_iff_eq

/-- The algorithm that a hint selects is one of the key's. It has the name of the key if the hint
is empty, and else the name in the hint. -/
theorem KeyType.signatureFor?_eq_some {k : KeyType} {hint : Bytes} {t : SignatureType}
    (h : k.signatureFor? hint = some t) :
    k.makes t = true ∧ (hint = [] ∧ t.name = k.name ∨ hint = t.name) := by
  unfold signatureFor? at h
  by_cases hempty : hint = []
  · rw [if_pos (List.isEmpty_iff.mpr hempty)] at h
    obtain rfl : k.defaultSignature = t := Option.some.inj h
    exact ⟨k.makes_defaultSignature, .inl ⟨hempty, k.name_defaultSignature⟩⟩
  · rw [if_neg (fun hno => hempty (List.isEmpty_iff.mp hno)), Option.filter_eq_some_iff] at h
    exact ⟨h.2, .inr (SignatureType.name_of_ofName? h.1).symm⟩

/-- A hint selects the algorithm of the key that has its name. An empty hint stands for the name of
the key. -/
theorem KeyType.signatureFor?_eq_some_iff {k : KeyType} {hint : Bytes} {t : SignatureType} :
    k.signatureFor? hint = some t ↔
      t.name = (if hint = [] then k.name else hint) ∧ k.makes t = true := by
  unfold signatureFor?
  by_cases hempty : hint = []
  · rw [if_pos (List.isEmpty_iff.mpr hempty), if_pos hempty, Option.some.injEq]
    constructor
    · rintro rfl
      exact ⟨k.name_defaultSignature, k.makes_defaultSignature⟩
    · rintro ⟨hname, -⟩
      exact SignatureType.eq_of_name_eq (k.name_defaultSignature.trans hname.symm)
  · rw [if_neg (fun hno => hempty (List.isEmpty_iff.mp hno)), if_neg hempty,
      Option.filter_eq_some_iff]
    refine and_congr_left fun _ => ⟨SignatureType.name_of_ofName?, ?_⟩
    rintro rfl
    exact t.ofName?_name

/-! ## Families -/

namespace Family

theorem mem_all (f : Family) : f ∈ all := by
  cases f <;> decide

/-- No stem begins with the stem of another family. -/
theorem eq_of_prefix_stem {f g : Family} (h : f.stem <+: g.stem) : f = g := by
  rw [← List.isPrefixOf_iff_prefix] at h
  revert h
  cases f <;> cases g <;> decide

theorem stem_prefix_of_ofAlgorithm? {algorithm : Bytes} {f : Family}
    (h : ofAlgorithm? algorithm = some f) : f.stem <+: algorithm := by
  have hfound := List.find?_some h
  exact List.isPrefixOf_iff_prefix.mp hfound

/-- The family of an algorithm is the one whose stem it begins with. -/
theorem ofAlgorithm?_eq_some_iff {algorithm : Bytes} {f : Family} :
    ofAlgorithm? algorithm = some f ↔ f.stem <+: algorithm := by
  constructor
  · exact stem_prefix_of_ofAlgorithm?
  · intro h
    cases hfound : ofAlgorithm? algorithm with
    | none =>
      have hno := List.find?_eq_none.mp hfound f f.mem_all
      exact absurd (List.isPrefixOf_iff_prefix.mpr h) hno
    | some g =>
      rcases List.prefix_or_prefix_of_prefix h (stem_prefix_of_ofAlgorithm? hfound) with hfg | hgf
      · rw [eq_of_prefix_stem hfg]
      · rw [eq_of_prefix_stem hgf]

theorem ofAlgorithm?_eq_none_iff {algorithm : Bytes} :
    ofAlgorithm? algorithm = none ↔ ∀ f : Family, ¬ f.stem <+: algorithm := by
  rw [Option.eq_none_iff_forall_ne_some]
  exact forall_congr' fun f => not_congr ofAlgorithm?_eq_some_iff

end Family

end SshCert

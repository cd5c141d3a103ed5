import SshCert.Proofs.Algorithm.RequestName
import SshCert.Proofs.Certificate.Binding
import SshCert.Proofs.Key.Parts
import SshCert.Proofs.Suite.Admission

/-
  The key of a decoded certificate.
  The decoder goes by the beginning of the algorithm name and by the number of strings in the key
  material. The loader wants the exact name of a key type, strings that hold a key of this type, and
  values that the suite accepts: `certifiedKey_eq_some_iff` says that it wants nothing else.
-/

namespace SshCert.Certificate

open Wire

theorem certifiedBlob_eq (c : Certificate) :
    c.certifiedBlob = encodeString (plainName c.algorithm) ++ c.keyMaterial := by
  simp [certifiedBlob]

/-- The plain name of an algorithm is the beginning of it. -/
theorem plainName_prefix (name : Bytes) : plainName name <+: name := by
  rcases (plainName_cases name).2 with hname | ⟨version, hname⟩
  · exact ⟨[], (List.append_nil _).trans hname.symm⟩
  · exact ⟨_, hname.symm⟩

namespace Layout

variable {l : Layout} {k : PublicKey}

/-- A certificate for a key of a type has as many strings as hold such a key. -/
theorem WellFormed.length_key (h : l.WellFormed) (hname : plainName l.algorithm = k.type.name) :
    l.key.length = k.type.family.fieldCount := by
  obtain ⟨f, hf, hcount⟩ := h.family
  have hstem : k.type.family.stem <+: l.algorithm := by
    have hplain := plainName_prefix l.algorithm
    rw [hname] at hplain
    exact k.type.stem_prefix_name.trans hplain
  have hfamily : f = k.type.family := by
    rw [Family.ofAlgorithm?_eq_some_iff.mpr hstem] at hf
    exact (Option.some.inj hf).symm
  rw [hcount, hfamily]

theorem WellFormed.certifiedKey_eq_some_iff (h : l.WellFormed) {s : Suite} {signature : Bytes} :
    ((l.certificate signature).certifiedKey s).value = some k ↔
      plainName l.algorithm = k.type.name ∧ k.HeldBy l.key ∧ s.acceptsPublic k = true := by
  have hfits : Fits (plainName l.algorithm) :=
    Nat.lt_of_le_of_lt (length_plainName_le l.algorithm) h.algorithm
  have hblob : (l.certificate signature).certifiedBlob =
      encodeString (plainName l.algorithm) ++ encodeStrings l.key := certifiedBlob_eq _
  rw [certifiedKey_value, Suite.loadPublic_eq_some_iff, PublicKey.parse_eq_ok_iff, hblob]
  constructor
  · intro hloaded
    obtain ⟨⟨parts, rest, hheld, hparts, hbytes⟩, haccepts⟩ := hloaded
    obtain ⟨hname, hrow⟩ := encodeString_append_inj hfits k.type.fits_name hbytes
    have hlength : l.key.length = parts.length := by
      rw [h.length_key hname, hheld.length_eq]
    have hrow' : encodeStrings l.key ++ [] = encodeStrings parts ++ rest := by
      rw [List.append_nil, hrow]
    obtain ⟨rfl, -⟩ := encodeStrings_append_inj hlength h.key hparts hrow'
    exact ⟨hname, hheld, haccepts⟩
  · intro hkey
    obtain ⟨hname, hheld, haccepts⟩ := hkey
    refine ⟨⟨l.key, [], hheld, h.key, ?_⟩, haccepts⟩
    rw [hname, List.append_nil]

end Layout

end SshCert.Certificate

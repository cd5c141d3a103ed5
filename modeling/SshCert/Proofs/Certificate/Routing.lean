import SshCert.Proofs.Certificate.CertifiedKey
import SshCert.Proofs.Certificate.Issuing
import SshCert.Proofs.Certificate.Sniff
import SshCert.Proofs.Key.NormalForm

/-
  Plain keys and certificates told apart.
  Data is taken for a certificate by its first four bytes and the bytes that these announce
  (`isCertificate_iff_announced`), and the same bytes are read as its first string later on
  (`string_of_isCertificate`). In a key blob this string is the name of a type and in the blob of a
  certified key a plain name; both are free of the mark, so neither blob goes the way of a
  certificate. A written certificate goes it exactly if its algorithm is short and has the mark, and
  bytes behind any data change nothing (`isCertificate_separates`).
-/

namespace SshCert.Certificate

open Wire

/-! ## What is looked at -/

/-- The decision as it is made on the bytes, without reading a string. -/
theorem isCertificate_iff_announced {b : Bytes} :
    isCertificate b = true ↔
      4 ≤ b.length ∧ announced b ≤ maxAlgorithmSize ∧ announced b ≤ b.length - 4 ∧
        certificateMark <:+: Bytes.slice b 4 (announced b) := by
  rw [isCertificate, Option.isSome_iff_exists]
  simp only [algorithm?_eq_some_iff, string_eq_ite, Option.ite_none_right_eq_some]
  constructor
  · intro h
    obtain ⟨name, ⟨rest, ⟨hfour, hbody⟩, hread⟩, hshort, hmark⟩ := h
    obtain ⟨rfl, -⟩ := Prod.mk.inj (Option.some.inj hread)
    rw [Bytes.length_slice hbody] at hshort
    exact ⟨hfour, hshort, hbody, hmark⟩
  · intro h
    obtain ⟨hfour, hshort, hbody, hmark⟩ := h
    refine ⟨_, ⟨_, ⟨hfour, hbody⟩, rfl⟩, ?_, hmark⟩
    rw [Bytes.length_slice hbody]
    exact hshort

/-- The string that is read from a certificate is the one it was recognised by. -/
theorem string_of_isCertificate {b : Bytes} (h : isCertificate b = true) :
    string b = some (Bytes.slice b 4 (announced b), b.drop (4 + announced b)) := by
  obtain ⟨hfour, -, hbody, -⟩ := isCertificate_iff_announced.mp h
  rw [string_eq_ite, if_pos ⟨hfour, hbody⟩]

theorem isCertificate_append {b : Bytes} (h : isCertificate b = true) (t : Bytes) :
    isCertificate (b ++ t) = true := by
  obtain ⟨name, rest, hfits, rfl, hname⟩ := isCertificate_iff.mp h
  rw [List.append_assoc]
  exact (isCertificate_encodeString_append hfits _).mpr hname

/-! ## What is not taken for a certificate -/

theorem isCertificate_of_unmarked {name : Bytes} (hfits : Fits name)
    (hname : ¬ certificateMark <:+: name) (rest : Bytes) :
    isCertificate (encodeString name ++ rest) = false := by
  rw [← Bool.not_eq_true, isCertificate_encodeString_append hfits]
  exact fun h => hname h.2

theorem isCertificate_of_loadPublic {s : Suite} {b : Bytes} {k : PublicKey}
    (h : (s.loadPublic b).value = some k) : isCertificate b = false := by
  obtain ⟨hparse, -⟩ := Suite.loadPublic_eq_some_iff.mp h
  obtain ⟨parts, rest, -, -, rfl⟩ := PublicKey.parse_eq_ok_iff.mp hparse
  exact isCertificate_of_unmarked k.type.fits_name k.type.unmarked_name _

theorem isCertificate_certifiedBlob {c : Certificate} (h : Fits c.algorithm) :
    isCertificate c.certifiedBlob = false := by
  have hfits : Fits (plainName c.algorithm) :=
    Nat.lt_of_le_of_lt (length_plainName_le c.algorithm) h
  rw [certifiedBlob_eq]
  exact isCertificate_of_unmarked hfits (plainName_cases c.algorithm).1 _

/-! ## What is written for a certificate -/

theorem encode_eq_append (c : Certificate) :
    c.encode =
      encodeString c.algorithm ++ encodeAll (c.signedFields.tail ++ [.string c.signature]) :=
  rfl

theorem isCertificate_encode_iff {c : Certificate} (h : Fits c.algorithm) :
    isCertificate c.encode = true ↔
      c.algorithm.length ≤ maxAlgorithmSize ∧ certificateMark <:+: c.algorithm := by
  rw [encode_eq_append]
  exact isCertificate_encodeString_append h _

/-- Nothing that is loaded as a plain key is taken for a certificate, and neither is the key in a
certificate. A written certificate is taken for one exactly if its algorithm has at most 64 bytes
and the mark. The decision is made on the length in front of the data and the bytes that it
announces. Where it is positive it stays so in front of other bytes, and the bytes that were looked
at are those that are read as the first string. -/
theorem isCertificate_separates :
    (∀ (s : Suite) (b : Bytes), (s.loadPublic b).value.isSome = true → isCertificate b = false) ∧
      (∀ c : Certificate, Fits c.algorithm →
        isCertificate c.certifiedBlob = false ∧
          (isCertificate c.encode = true ↔
            c.algorithm.length ≤ 64 ∧ ascii "-cert-v" <:+: c.algorithm)) ∧
      ∀ b : Bytes,
        (isCertificate b = true ↔
          4 ≤ b.length ∧ announced b ≤ 64 ∧ announced b ≤ b.length - 4 ∧
            ascii "-cert-v" <:+: Bytes.slice b 4 (announced b)) ∧
          (isCertificate b = true →
            (∀ t, isCertificate (b ++ t) = true) ∧
              string b = some (Bytes.slice b 4 (announced b), b.drop (4 + announced b))) := by
  refine ⟨fun s b hload => ?_, fun c hfits => ?_, fun b => ?_⟩
  · obtain ⟨k, hk⟩ := Option.isSome_iff_exists.mp hload
    exact isCertificate_of_loadPublic hk
  · exact ⟨isCertificate_certifiedBlob hfits, isCertificate_encode_iff hfits⟩
  · refine ⟨isCertificate_iff_announced, fun h => ?_⟩
    exact ⟨isCertificate_append h, string_of_isCertificate h⟩

namespace Sample

/-- A name of 64 bytes that ends with the mark. -/
def longestName : Bytes := List.replicate 57 0x61 ++ ascii "-cert-v"

/-- A certificate whose algorithm is of no family. -/
def named (algorithm : Bytes) : Certificate := { dss.certificate with algorithm }

end Sample

/-- The longest name that is recognised and the same name with one byte more. -/
theorem isCertificate_separates_longest :
    (Suite.standard.loadPublic Suite.Sample.blob).value.isSome = true ∧
      isCertificate Suite.Sample.blob = false ∧
      Fits (Sample.named Sample.longestName).algorithm ∧
      isCertificate (Sample.named Sample.longestName).certifiedBlob = false ∧
      isCertificate (Sample.named Sample.longestName).encode = true ∧
      isCertificate (Sample.named (0x61 :: Sample.longestName)).encode = false ∧
      isCertificate (encodeString Sample.longestName) = true ∧
      isCertificate (encodeString Sample.longestName ++ [0xff]) = true ∧
      string (encodeString Sample.longestName) = some (Sample.longestName, []) := by
  obtain ⟨hkeys, hwritten, hdata⟩ := isCertificate_separates
  have hload : (Suite.standard.loadPublic Suite.Sample.blob).value.isSome = true := by
    rw [Suite.Sample.loadPublic_blob]
    rfl
  have hfits : Fits (Sample.named Sample.longestName).algorithm := by
    decide
  have hmark : ascii "-cert-v" <:+: Sample.longestName := ⟨List.replicate 57 0x61, [], by decide⟩
  obtain ⟨hblob, hencode⟩ := hwritten (Sample.named Sample.longestName) hfits
  obtain ⟨-, hlonger⟩ := hwritten (Sample.named (0x61 :: Sample.longestName)) (by decide)
  have hsniffed : isCertificate (encodeString Sample.longestName) = true := by
    decide
  obtain ⟨happend, hstring⟩ := (hdata (encodeString Sample.longestName)).2 hsniffed
  refine ⟨hload, hkeys _ _ hload, hfits, hblob, hencode.mpr ⟨by decide, hmark⟩, ?_, hsniffed,
    happend [0xff], ?_⟩
  · rw [← Bool.not_eq_true, hlonger]
    exact fun h => absurd h.1 (by decide)
  · rw [hstring]
    decide

end SshCert.Certificate

import SshCert.Certificate.Sniff
import SshCert.Proofs.Algorithm.RequestName
import SshCert.Proofs.Certificate.Layout

/-
  Data that begins like a certificate.
  `isCertificate_iff` says which data is recognised. Where the data can be decoded too, the
  recognised name is the algorithm of the certificate (`algorithm?_of_decode`). No data is both
  recognised and a text that begins with an algorithm: the one begins with a zero
  (`head?_of_isCertificate`) and the other with a letter (`head?_algorithm`).
-/

namespace SshCert.Certificate

open Wire

theorem algorithm?_eq_some_iff {b name : Bytes} :
    algorithm? b = some name ↔ (∃ rest, string b = some (name, rest)) ∧
      name.length ≤ maxAlgorithmSize ∧ certificateMark <:+: name := by
  rw [← isCertificateName_iff]
  unfold algorithm?
  cases string b with
  | none => simp
  | some p =>
    obtain ⟨name', rest⟩ := p
    simp only [Option.ite_none_right_eq_some, Option.some.injEq, Prod.mk.injEq,
      Bool.and_eq_true, decide_eq_true_eq]
    constructor
    · intro h
      obtain ⟨htest, rfl⟩ := h
      exact ⟨⟨rest, rfl, rfl⟩, htest⟩
    · intro h
      obtain ⟨⟨rest', rfl, -⟩, htest⟩ := h
      exact ⟨htest, rfl⟩

theorem isCertificate_of_algorithm? {b name : Bytes} (h : algorithm? b = some name) :
    isCertificate b = true := by
  rw [isCertificate, h, Option.isSome_some]

/-- The data begins with a short string that has the certificate mark. -/
theorem isCertificate_iff {b : Bytes} :
    isCertificate b = true ↔ ∃ name rest, Fits name ∧ b = encodeString name ++ rest ∧
      name.length ≤ maxAlgorithmSize ∧ certificateMark <:+: name := by
  rw [isCertificate, Option.isSome_iff_exists]
  simp only [algorithm?_eq_some_iff, string_eq_some_iff]
  constructor
  · intro h
    obtain ⟨name, ⟨rest, hfits, hb⟩, hname⟩ := h
    exact ⟨name, rest, hfits, hb, hname⟩
  · intro h
    obtain ⟨name, rest, hfits, hb, hname⟩ := h
    exact ⟨name, ⟨rest, hfits, hb⟩, hname⟩

/-- Data that begins with a string is recognised by this string, whatever follows it. -/
theorem isCertificate_encodeString_append {name : Bytes} (hfits : Fits name) (rest : Bytes) :
    isCertificate (encodeString name ++ rest) = true ↔
      name.length ≤ maxAlgorithmSize ∧ certificateMark <:+: name := by
  rw [isCertificate_iff]
  constructor
  · intro h
    obtain ⟨name', rest', hfits', hb, hname⟩ := h
    rw [(encodeString_append_inj hfits hfits' hb).1]
    exact hname
  · intro hname
    exact ⟨name, rest, hfits, rfl, hname⟩

theorem isCertificate_iff_of_decode {b : Bytes} {c : Certificate} (h : decode b = .ok c) :
    isCertificate b = true ↔
      c.algorithm.length ≤ maxAlgorithmSize ∧ certificateMark <:+: c.algorithm := by
  obtain ⟨l, signature, tail, hwf, -, rfl, hb⟩ := decode_eq_ok_iff.mp h
  rw [Layout.encode_append] at hb
  rw [hb]
  exact isCertificate_encodeString_append hwf.algorithm _

theorem algorithm?_of_decode {b : Bytes} {c : Certificate} (hsniffed : isCertificate b = true)
    (hdecoded : decode b = .ok c) : algorithm? b = some c.algorithm := by
  obtain ⟨hshort, hmark⟩ := (isCertificate_iff_of_decode hdecoded).mp hsniffed
  obtain ⟨l, signature, tail, hwf, -, rfl, hb⟩ := decode_eq_ok_iff.mp hdecoded
  rw [Layout.encode_append] at hb
  exact algorithm?_eq_some_iff.mpr ⟨⟨_, string_eq_some_iff.mpr ⟨hwf.algorithm, hb⟩⟩, hshort, hmark⟩

/-- A name this short is announced with a zero in front, which no text begins with. -/
theorem head?_of_isCertificate {b : Bytes} (h : isCertificate b = true) : b.head? = some 0 := by
  obtain ⟨name, rest, hfits, rfl, hshort, -⟩ := isCertificate_iff.mp h
  have hword : (UInt32.ofNat name.length).toNat / 256 / 256 / 256 = 0 := by
    rw [toNat_length hfits]
    unfold maxAlgorithmSize at hshort
    omega
  rw [encodeString_eq, lengthWord, Bytes.ofUInt32]
  simp only [Bytes.ofNat, hword]
  rfl

/-- The algorithm of a certificate begins with a letter, like the stem of its family. -/
theorem head?_algorithm {b : Bytes} {c : Certificate} (h : decode b = .ok c) :
    c.algorithm.head? = some 0x73 ∨ c.algorithm.head? = some 0x65 := by
  obtain ⟨l, signature, tail, hwf, -, rfl, -⟩ := decode_eq_ok_iff.mp h
  obtain ⟨f, hfamily, -⟩ := hwf.family
  obtain ⟨rest, hstem⟩ := Family.stem_prefix_of_ofAlgorithm? hfamily
  show l.algorithm.head? = _ ∨ l.algorithm.head? = _
  rw [← hstem]
  cases f
  case ecdsa => exact .inr rfl
  all_goals exact .inl rfl

end SshCert.Certificate

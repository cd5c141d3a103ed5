import SshCert.Algorithm.Certified
import SshCert.Proofs.Algorithm.Name
import SshCert.Proofs.Text.Occurrence

/-
  Names in requests.
  `plainName` cuts a name at its certificate mark, which cannot overlap itself, so it takes apart
  what `requestName` puts together. `requestNameFits_iff` says which names a request may give
  for a certificate, and `requestNameFits_requestName` that the client's own name is one of them.
  `requestName_agrees` has both sides: what the client's name is taken for, and that no name fits
  but those that are put together at the seam where they are cut.
-/

namespace SshCert

/-! ## The certificate mark -/

theorem unbordered_certificateMark : Bytes.Unbordered certificateMark := by
  decide

theorem isCertificateName_iff {name : Bytes} :
    isCertificateName name = true ↔ certificateMark <:+: name :=
  Bytes.occurs_iff

theorem plainName_of_unmarked {name : Bytes} (h : ¬ certificateMark <:+: name) :
    plainName name = name := by
  rw [plainName, Bytes.splitAtFirst_eq_none_iff.mpr h]

theorem plainName_append {name : Bytes} (h : ¬ certificateMark <:+: name) (version : Bytes) :
    plainName (name ++ (certificateMark ++ version)) = name := by
  rw [plainName, (Bytes.splitAtFirst_eq_some_iff unbordered_certificateMark).mpr ⟨rfl, h⟩]

/-- A name is plain or the plain name, the mark and a version. -/
theorem plainName_cases (name : Bytes) :
    ¬ certificateMark <:+: plainName name ∧
      (name = plainName name ∨
        ∃ version, name = plainName name ++ (certificateMark ++ version)) := by
  cases hsplit : Bytes.splitAtFirst certificateMark name with
  | none =>
    have hfree := Bytes.splitAtFirst_eq_none_iff.mp hsplit
    rw [plainName_of_unmarked hfree]
    exact ⟨hfree, .inl rfl⟩
  | some p =>
    obtain ⟨hname, hfree⟩ := (Bytes.splitAtFirst_eq_some_iff unbordered_certificateMark).mp hsplit
    have hplain : plainName name = p.1 := by
      rw [hname, plainName_append hfree]
    rw [hplain]
    exact ⟨hfree, .inr ⟨p.2, hname⟩⟩

theorem length_plainName_le (name : Bytes) : (plainName name).length ≤ name.length := by
  rcases (plainName_cases name).2 with hname | ⟨version, hname⟩
  · exact Nat.le_of_eq (congrArg List.length hname.symm)
  · have hsize := congrArg List.length hname
    rw [List.length_append] at hsize
    omega

/-! ## Names for RSA certificates -/

theorem requestName_eq_append {c signature : Bytes} (hc : ascii "ssh-rsa-cert-v" <+: c)
    (hsignature : ascii "rsa-sha2-" <+: signature) :
    requestName c signature = signature ++ c.drop (ascii "ssh-rsa").length := by
  rw [requestName, if_pos]
  rw [Bool.and_eq_true]
  exact ⟨List.isPrefixOf_iff_prefix.mpr hc, List.isPrefixOf_iff_prefix.mpr hsignature⟩

theorem requestName_eq_self {c signature : Bytes}
    (h : ¬ (ascii "ssh-rsa-cert-v" <+: c ∧ ascii "rsa-sha2-" <+: signature)) :
    requestName c signature = c := by
  rw [requestName, if_neg]
  intro hboth
  rw [Bool.and_eq_true] at hboth
  exact h ⟨List.isPrefixOf_iff_prefix.mp hboth.1, List.isPrefixOf_iff_prefix.mp hboth.2⟩

theorem length_requestName_le (c signature : Bytes) :
    (requestName c signature).length ≤ signature.length + c.length := by
  unfold requestName
  split
  · rw [List.length_append, List.length_drop]
    omega
  · omega

/-- What an RSA certificate has behind the name of its key begins with the mark. -/
theorem drop_of_rsa {c : Bytes} (hc : ascii "ssh-rsa-cert-v" <+: c) :
    ∃ version, c.drop (ascii "ssh-rsa").length = certificateMark ++ version := by
  obtain ⟨version, rfl⟩ := hc
  exact ⟨version, rfl⟩

/-- A name in front of the mark and the version of an RSA certificate is cut off again. -/
theorem plainName_append_drop {name c : Bytes} (hc : ascii "ssh-rsa-cert-v" <+: c)
    (hname : ¬ certificateMark <:+: name) :
    plainName (name ++ c.drop (ascii "ssh-rsa").length) = name := by
  obtain ⟨version, hversion⟩ := drop_of_rsa hc
  rw [hversion, plainName_append hname]

/-- A request names the algorithm of the certificate, or for an RSA certificate a newer RSA
signature in front of the mark and the version of the certificate. -/
theorem requestNameFits_iff {request c : Bytes} :
    requestNameFits request c = true ↔ request = c ∨ (ascii "ssh-rsa-cert-v" <+: c ∧
      ∃ name, ascii "rsa-sha2-" <+: name ∧ ¬ certificateMark <:+: name ∧
        request = name ++ c.drop (ascii "ssh-rsa").length) := by
  rw [requestNameFits, Bool.or_eq_true, beq_iff_eq, beq_iff_eq, signatureName]
  obtain ⟨hfree, -⟩ := plainName_cases request
  constructor
  · intro h
    rcases h with h | h
    · exact .inl h
    · by_cases hboth : ascii "ssh-rsa-cert-v" <+: c ∧ ascii "rsa-sha2-" <+: plainName request
      · obtain ⟨hc, hname⟩ := hboth
        rw [requestName_eq_append hc hname] at h
        exact .inr ⟨hc, plainName request, hname, hfree, h.symm⟩
      · rw [requestName_eq_self hboth] at h
        exact .inl h.symm
  · intro h
    rcases h with h | ⟨hc, name, hname, hplain, hrequest⟩
    · exact .inl h
    · right
      have hrecovered : plainName request = name := by
        rw [hrequest, plainName_append_drop hc hplain]
      rw [hrecovered, requestName_eq_append hc hname, hrequest]

/-- The same of the request alone: the name in front of the seam is its plain name. -/
theorem requestNameFits_iff_plainName {request c : Bytes} :
    requestNameFits request c = true ↔ request = c ∨ (ascii "ssh-rsa-cert-v" <+: c ∧
      request = plainName request ++ c.drop (ascii "ssh-rsa").length ∧
      ascii "rsa-sha2-" <+: plainName request) := by
  rw [requestNameFits_iff]
  refine or_congr_right (and_congr_right fun hc => ?_)
  constructor
  · intro h
    obtain ⟨name, hname, hfree, hrequest⟩ := h
    have hrecovered : plainName request = name := by
      rw [hrequest, plainName_append_drop hc hfree]
    rw [hrecovered]
    exact ⟨hrequest, hname⟩
  · intro h
    obtain ⟨hrequest, hname⟩ := h
    exact ⟨plainName request, hname, (plainName_cases request).1, hrequest⟩

/-- The name that the client gives for a plain signature algorithm fits the certificate. -/
theorem requestNameFits_requestName {c signature : Bytes}
    (hsignature : ¬ certificateMark <:+: signature) :
    requestNameFits (requestName c signature) c = true := by
  rw [requestNameFits_iff]
  by_cases hboth : ascii "ssh-rsa-cert-v" <+: c ∧ ascii "rsa-sha2-" <+: signature
  · obtain ⟨hc, hname⟩ := hboth
    exact .inr ⟨hc, signature, hname, hsignature, requestName_eq_append hc hname⟩
  · exact .inl (requestName_eq_self hboth)

/-- The server takes the client's name apart again. -/
theorem signatureName_requestName {c signature : Bytes}
    (hsignature : ¬ certificateMark <:+: signature) :
    signatureName (requestName c signature) =
      if ascii "ssh-rsa-cert-v" <+: c ∧ ascii "rsa-sha2-" <+: signature then signature
      else plainName c := by
  split
  · next hboth =>
    rw [requestName_eq_append hboth.1 hboth.2, signatureName,
      plainName_append_drop hboth.1 hsignature]
  · next hboth =>
    rw [requestName_eq_self hboth, signatureName]

/-- The client's name for a plain signature algorithm fits the certificate and stands for this
algorithm where it could be renamed, and for the plain name of the certificate where not. A request
fits a certificate only if it names its algorithm, or if the certificate is an RSA one and the
request is its own plain name, that of a newer RSA signature, in front of what the certificate has
behind the name of its key. -/
theorem requestName_agrees (c : Bytes) :
    (∀ signature, ¬ certificateMark <:+: signature →
      requestNameFits (requestName c signature) c = true ∧
      signatureName (requestName c signature) =
        if ascii "ssh-rsa-cert-v" <+: c ∧ ascii "rsa-sha2-" <+: signature then signature
        else plainName c) ∧
    ∀ request, requestNameFits request c = true ↔ request = c ∨ (ascii "ssh-rsa-cert-v" <+: c ∧
      request = plainName request ++ c.drop (ascii "ssh-rsa").length ∧
      ascii "rsa-sha2-" <+: plainName request) := by
  refine ⟨fun signature hsignature => ?_, fun request => requestNameFits_iff_plainName⟩
  exact ⟨requestNameFits_requestName hsignature, signatureName_requestName hsignature⟩

/-- A signature name that ends in all of the mark but its last character. -/
theorem requestName_agrees_overlapping :
    ¬ certificateMark <:+: ascii "rsa-sha2-1-cert-" ∧
      requestName (ascii "ssh-rsa-cert-v01") (ascii "rsa-sha2-1-cert-") =
        ascii "rsa-sha2-1-cert--cert-v01" ∧
      requestNameFits (ascii "rsa-sha2-1-cert--cert-v01") (ascii "ssh-rsa-cert-v01") = true ∧
      signatureName (ascii "rsa-sha2-1-cert--cert-v01") = ascii "rsa-sha2-1-cert-" := by
  have hfree : ¬ certificateMark <:+: ascii "rsa-sha2-1-cert-" := by
    rw [← Bytes.occurs_iff]
    decide
  have hrequest : requestName (ascii "ssh-rsa-cert-v01") (ascii "rsa-sha2-1-cert-") =
      ascii "rsa-sha2-1-cert--cert-v01" := by
    decide
  obtain ⟨hfits, hname⟩ := (requestName_agrees (ascii "ssh-rsa-cert-v01")).1 _ hfree
  rw [hrequest] at hfits hname
  refine ⟨hfree, hrequest, hfits, ?_⟩
  rw [hname, if_pos]
  simp only [← List.isPrefixOf_iff_prefix]
  decide

/-! ## Names of signature algorithms -/

theorem SignatureType.unmarked_name (t : SignatureType) : ¬ certificateMark <:+: t.name := by
  rw [← Bytes.occurs_iff]
  cases t with
  | ecdsa c => cases c <;> decide
  | _ => decide

/-- No type of keys has the mark in its name. -/
theorem KeyType.unmarked_name (k : KeyType) : ¬ certificateMark <:+: k.name := by
  rw [← k.name_defaultSignature]
  exact k.defaultSignature.unmarked_name

theorem unmarked_of_signatureFor? {k : KeyType} {hint : Bytes} {t : SignatureType}
    (ht : k.signatureFor? hint = some t) : ¬ certificateMark <:+: hint := by
  rcases (KeyType.signatureFor?_eq_some ht).2 with ⟨rfl, -⟩ | rfl
  · rw [List.infix_nil]
    exact unbordered_certificateMark.1
  · exact t.unmarked_name

/-- For a certificate of a key type, the server reads out of the client's name the signature
algorithm that the client has selected. -/
theorem signatureName_requestName_of_signatureFor? {k : KeyType} {hint algorithm version : Bytes}
    {t : SignatureType} (ht : k.signatureFor? hint = some t)
    (halgorithm : algorithm = k.name ++ (certificateMark ++ version))
    (hplain : plainName algorithm = k.name) :
    signatureName (requestName algorithm hint) = t.name := by
  obtain ⟨hmakes, hhint⟩ := KeyType.signatureFor?_eq_some ht
  have htype : t.keyType = k := KeyType.makes_iff.mp hmakes
  rw [signatureName_requestName (unmarked_of_signatureFor? ht), hplain]
  rcases hhint with ⟨rfl, hname⟩ | rfl
  · rw [hname, if_neg]
    intro h
    cases List.prefix_nil.mp h.2
  · rcases t.name_cases with ⟨hsame, hold⟩ | ⟨hrsa, hnew⟩
    · rw [if_neg (fun h => hold h.2), hsame, htype]
    · have hcertificate : ascii "ssh-rsa-cert-v" <+: algorithm := by
        rw [halgorithm, ← htype, hrsa]
        exact ⟨version, rfl⟩
      rw [if_pos ⟨hcertificate, hnew⟩]

end SshCert

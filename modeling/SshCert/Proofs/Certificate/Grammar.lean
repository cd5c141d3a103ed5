import SshCert.Proofs.Algorithm.Name
import SshCert.Proofs.Certificate.Layout
import SshCert.Proofs.Certificate.OptionMap

/-
  The grammar of certificates.
  `keyForms` lists the algorithms and their keys, and `Layout.Stands` writes a byte string down as
  the fourteen fields of a certificate and a tail, without a word about reading.
  `decode_iff_grammar` says that the decoder accepts exactly these byte strings, that they can be
  taken apart in one way only, which fields the certificate then has, and what kind of error there
  is for all others.
-/

namespace SshCert.Certificate

open Wire

/-! ## Algorithms and keys -/

/-- How the algorithms of certificates begin, and how many parts the keys behind them have. -/
def keyForms : List (Bytes × Nat) :=
  [(ascii "ssh-rsa", 2), (ascii "ecdsa-sha2-nistp", 2), (ascii "ssh-ed25519", 1),
    (ascii "ssh-dss", 4)]

/-- The forms are those of the families. -/
theorem mem_keyForms_iff {form : Bytes × Nat} :
    form ∈ keyForms ↔ ∃ f : Family, form = (f.stem, f.fieldCount) := by
  constructor
  · intro h
    simp only [keyForms, List.mem_cons, List.not_mem_nil, or_false] at h
    rcases h with h | h | h | h
    · exact ⟨.rsa, h⟩
    · exact ⟨.ecdsa, h⟩
    · exact ⟨.ed25519, h⟩
    · exact ⟨.dss, h⟩
  · intro h
    obtain ⟨f, rfl⟩ := h
    cases f <;> decide

theorem exists_family_iff {algorithm : Bytes} {count : Nat} :
    (∃ f, Family.ofAlgorithm? algorithm = some f ∧ count = f.fieldCount) ↔
      ∃ form ∈ keyForms, form.1 <+: algorithm ∧ count = form.2 := by
  constructor
  · intro h
    obtain ⟨f, hf, hcount⟩ := h
    exact ⟨_, mem_keyForms_iff.mpr ⟨f, rfl⟩, Family.ofAlgorithm?_eq_some_iff.mp hf, hcount⟩
  · intro h
    obtain ⟨form, hform, hstem, hcount⟩ := h
    obtain ⟨f, rfl⟩ := mem_keyForms_iff.mp hform
    exact ⟨f, Family.ofAlgorithm?_eq_some_iff.mpr hstem, hcount⟩

theorem ofAlgorithm?_eq_none_iff_keyForms {algorithm : Bytes} :
    Family.ofAlgorithm? algorithm = none ↔ ∀ form ∈ keyForms, ¬ form.1 <+: algorithm := by
  rw [Family.ofAlgorithm?_eq_none_iff]
  constructor
  · intro h form hform
    obtain ⟨f, rfl⟩ := mem_keyForms_iff.mp hform
    exact h f
  · intro h f
    exact h _ (mem_keyForms_iff.mpr ⟨f, rfl⟩)

/-! ## Fields and their bytes -/

/-- The fields in the order in which they stand. -/
def Field.all : List Field := Field.signed ++ [.signature]

/-- The fields up to the given one and itself. -/
def Field.upTo (f : Field) : List Field := Field.all.takeWhile (· ≠ f) ++ [f]

namespace Layout

/-- The place behind a field. -/
def endOffset (l : Layout) (signature : Bytes) (f : Field) : Nat :=
  (f.upTo.flatMap (l.portion signature)).length

/-- The bytes are the fields of the layout, the signature and a tail. The algorithm and the key are
of one of the forms, and the length of every string can be written in front of it. -/
structure Stands (l : Layout) (signature tail b : Bytes) : Prop where
  form : ∃ form ∈ keyForms, form.1 <+: l.algorithm ∧ l.key.length = form.2
  fits : ∀ v ∈ [l.algorithm, l.nonce, l.keyId, encodeStrings l.principals,
    encodePairs l.criticalOptions, encodePairs l.extensions, l.reserved, l.signatureKey,
    signature] ++ l.key, Fits v
  data_eq : b = Field.all.flatMap (l.portion signature) ++ tail

theorem flatMap_portion (l : Layout) (signature : Bytes) :
    Field.all.flatMap (l.portion signature) = l.encode ++ encodeString signature := by
  simp [Field.all, flatMap_portion_signed, portion]

theorem endOffset_signature (l : Layout) (signature : Bytes) :
    l.endOffset signature .signature = (l.encode ++ encodeString signature).length := by
  rw [← flatMap_portion]
  rfl

theorem stands_iff {l : Layout} {signature tail b : Bytes} :
    l.Stands signature tail b ↔
      l.WellFormed ∧ Fits signature ∧ b = l.encode ++ (encodeString signature ++ tail) := by
  constructor
  · intro h
    have hfits := h.fits
    simp only [List.forall_mem_append, List.forall_mem_cons] at hfits
    obtain ⟨⟨halgorithm, hnonce, hkeyId, hprincipals, hcritical, hextensions, hreserved,
      hsignatureKey, hsignature, -⟩, hkey⟩ := hfits
    refine ⟨⟨exists_family_iff.mpr h.form, halgorithm, hnonce, hkey, hkeyId, hprincipals, hcritical,
      hextensions, hreserved, hsignatureKey⟩, hsignature, ?_⟩
    rw [h.data_eq, flatMap_portion, List.append_assoc]
  · intro h
    obtain ⟨hwf, hsignature, hb⟩ := h
    refine ⟨exists_family_iff.mp hwf.family, ?_, ?_⟩
    · simp only [List.forall_mem_append, List.forall_mem_cons]
      exact ⟨⟨hwf.algorithm, hwf.nonce, hwf.keyId, hwf.principals, hwf.criticalOptions,
        hwf.extensions, hwf.reserved, hwf.signatureKey, hsignature, nofun⟩, hwf.key⟩
    · rw [hb, flatMap_portion, List.append_assoc]

/-- The bytes in front of the tail. -/
theorem Stands.take_eq {l : Layout} {signature tail b : Bytes} (h : l.Stands signature tail b) :
    b.take (l.endOffset signature .signature) = l.encode ++ encodeString signature := by
  rw [endOffset_signature, h.data_eq, flatMap_portion, List.take_left]

/-- Bytes are taken apart in one way only. -/
theorem Stands.unique {l₁ l₂ : Layout} {signature₁ signature₂ tail₁ tail₂ b : Bytes}
    (h₁ : l₁.Stands signature₁ tail₁ b) (h₂ : l₂.Stands signature₂ tail₂ b) :
    l₁ = l₂ ∧ signature₁ = signature₂ ∧ tail₁ = tail₂ := by
  obtain ⟨hwf₁, hsignature₁, hb₁⟩ := stands_iff.mp h₁
  obtain ⟨hwf₂, hsignature₂, hb₂⟩ := stands_iff.mp h₂
  obtain ⟨hl, hrest⟩ := encode_append_inj hwf₁ hwf₂ (hb₁.symm.trans hb₂)
  exact ⟨hl, encodeString_append_inj hsignature₁ hsignature₂ hrest⟩

end Layout

/-! ## The decoded certificate -/

/-- The certificate has the fields of the layout and the signature. Every option map has under a
name the value of the last option of that name and has no other names. -/
structure Holds (c : Certificate) (l : Layout) (signature : Bytes) : Prop where
  algorithm : c.algorithm = l.algorithm
  nonce : c.nonce = l.nonce
  keyMaterial : c.keyMaterial = encodeStrings l.key
  serial : c.serial = l.serial
  type : c.type = if l.typeCode = 1 then .user else if l.typeCode = 2 then .host else .unknown
  typeCode : c.typeCode = l.typeCode
  keyId : c.keyId = l.keyId
  principals : c.principals = l.principals
  validAfter : c.validAfter = l.validAfter
  validBefore : c.validBefore = l.validBefore
  criticalOptions : ∀ name value,
    c.criticalOptions.get? name = some value ↔ StandsLast l.criticalOptions name value
  extensions : ∀ name value,
    c.extensions.get? name = some value ↔ StandsLast l.extensions name value
  reserved : c.reserved = l.reserved
  signatureKey : c.signatureKey = l.signatureKey
  signature : c.signature = signature

theorem holds_iff {c : Certificate} {l : Layout} {signature : Bytes} :
    c.Holds l signature ↔ c = l.certificate signature := by
  constructor
  · intro h
    have hcritical := OptionMap.eq_ofList_iff.mpr h.criticalOptions
    have hextensions := OptionMap.eq_ofList_iff.mpr h.extensions
    obtain ⟨halgorithm, hnonce, hkey, hserial, htype, hcode, hkeyId, hprincipals, hafter, hbefore,
      -, -, hreserved, hsignatureKey, hsignature⟩ := h
    cases c
    subst halgorithm hnonce hkey hserial htype hcode hkeyId hprincipals hafter hbefore
    subst hcritical hextensions hreserved hsignatureKey hsignature
    rfl
  · intro h
    rw [h]
    exact ⟨rfl, rfl, rfl, rfl, rfl, rfl, rfl, rfl, rfl, rfl,
      OptionMap.eq_ofList_iff.mp rfl, OptionMap.eq_ofList_iff.mp rfl, rfl, rfl, rfl⟩

theorem decode_eq_ok_iff_stands {b : Bytes} {c : Certificate} :
    decode b = .ok c ↔
      ∃ l signature tail, Layout.Stands l signature tail b ∧ c = l.certificate signature := by
  rw [decode_eq_ok_iff]
  constructor
  · intro h
    obtain ⟨l, signature, tail, hwf, hsignature, hc, hb⟩ := h
    exact ⟨l, signature, tail, Layout.stands_iff.mpr ⟨hwf, hsignature, hb⟩, hc⟩
  · intro h
    obtain ⟨l, signature, tail, hstands, hc⟩ := h
    obtain ⟨hwf, hsignature, hb⟩ := Layout.stands_iff.mp hstands
    exact ⟨l, signature, tail, hwf, hsignature, hc, hb⟩

theorem Layout.Stands.decode_eq {l : Layout} {signature tail b : Bytes}
    (h : l.Stands signature tail b) : decode b = .ok (l.certificate signature) :=
  decode_eq_ok_iff_stands.mpr ⟨l, signature, tail, h, rfl⟩

/-! ## Errors -/

theorem decode_eq_error_iff {b : Bytes} {e : Error} : decode b = .error e ↔ read b = .error e := by
  unfold decode
  cases read b with
  | error e' =>
    constructor
    · intro h
      cases h
      rfl
    · intro h
      cases h
      rfl
  | ok p => exact ⟨nofun, nofun⟩

/-- The bytes begin with an algorithm that is of none of the forms. -/
def BeginsUnsupported (b : Bytes) : Prop :=
  ∃ algorithm rest, Fits algorithm ∧ b = encodeString algorithm ++ rest ∧
    ∀ form ∈ keyForms, ¬ form.1 <+: algorithm

/-- There is an error of the algorithm if it is of no form, and else one of the data. -/
theorem kind_of_decode_eq_error {b : Bytes} {e : Error} (h : decode b = .error e) :
    BeginsUnsupported b ∧ e.kind = .unsupportedKeyType ∨
      ¬ BeginsUnsupported b ∧ e.kind = .invalidCertificate := by
  rw [decode_eq_error_iff, read] at h
  rcases bind_eq_error_iff.mp h with hcut | ⟨algorithm, b₁, halgorithm, hread⟩
  · refine .inr ⟨?_, (failsAs_field .algorithm string).kind_eq hcut⟩
    intro hbegins
    obtain ⟨algorithm, rest, hfits, rfl, -⟩ := hbegins
    rw [readsString hfits] at hcut
    cases hcut
  rw [field_eq_ok_iff, string_eq_some_iff] at halgorithm
  obtain ⟨hfits, hb⟩ := halgorithm
  rcases bind_eq_error_iff.mp hread with hunsupported | ⟨family, b₂, hfamily, hfields⟩
  · obtain ⟨hnone, rfl⟩ := require_eq_error_iff.mp hunsupported
    exact .inl ⟨⟨algorithm, b₁, hfits, hb, ofAlgorithm?_eq_none_iff_keyForms.mp hnone⟩, rfl⟩
  obtain ⟨f, hf, -⟩ := require_eq_ok_iff.mp hfamily
  refine .inr ⟨?_, ?_⟩
  · intro hbegins
    obtain ⟨algorithm', rest, hfits', hb', hno⟩ := hbegins
    obtain ⟨rfl, -⟩ := encodeString_append_inj hfits hfits' (hb.symm.trans hb')
    rw [← ofAlgorithm?_eq_none_iff_keyForms, hf] at hno
    cases hno
  -- behind the algorithm there are only fields and their entries
  refine FailsAs.kind_eq ?_ hfields
  refine (failsAs_field .nonce _).bind fun _ => ?_
  refine (failsAs_field .publicKey _).bind fun _ => ?_
  refine (failsAs_field .serial _).bind fun _ => ?_
  refine (failsAs_field .type _).bind fun _ => ?_
  refine (failsAs_field .keyId _).bind fun _ => ?_
  refine (failsAs_field .principals _).bind fun _ => ?_
  refine (failsAs_require (.truncatedEntry .principal) _).bind fun _ => ?_
  refine (failsAs_field .validAfter _).bind fun _ => ?_
  refine (failsAs_field .validBefore _).bind fun _ => ?_
  refine (failsAs_field .criticalOptions _).bind fun _ => ?_
  refine (failsAs_require (.truncatedEntry .criticalOption) _).bind fun _ => ?_
  refine (failsAs_field .extensions _).bind fun _ => ?_
  refine (failsAs_require (.truncatedEntry .extension) _).bind fun _ => ?_
  refine (failsAs_field .reserved _).bind fun _ => ?_
  refine (failsAs_field .signatureKey _).bind fun _ => ?_
  exact (failsAs_field .signature _).bind fun _ => failsAs_pure _ _

/-! ## Acceptance -/

/-- The decoder accepts exactly the byte strings that are the fields of a certificate and a tail.
There is one way to take such a byte string apart, and the certificate has exactly the fields that
this gives. All others are refused, for their algorithm if it can be read and is of no form, and
else for their data. -/
theorem decode_iff_grammar (b : Bytes) :
    ((∃ c, decode b = .ok c) ↔ ∃ l signature tail, Layout.Stands l signature tail b) ∧
    (∀ l signature tail, Layout.Stands l signature tail b →
      (∀ c, decode b = .ok c ↔ c.Holds l signature) ∧
      ∀ l' signature' tail', Layout.Stands l' signature' tail' b →
        l' = l ∧ signature' = signature ∧ tail' = tail) ∧
    ∀ e, decode b = .error e →
      (e.kind = .unsupportedKeyType ↔ BeginsUnsupported b) ∧
      (e.kind = .invalidCertificate ↔ ¬ BeginsUnsupported b) := by
  refine ⟨?_, ?_, ?_⟩
  · constructor
    · intro h
      obtain ⟨c, hc⟩ := h
      obtain ⟨l, signature, tail, hstands, -⟩ := decode_eq_ok_iff_stands.mp hc
      exact ⟨l, signature, tail, hstands⟩
    · intro h
      obtain ⟨l, signature, tail, hstands⟩ := h
      exact ⟨l.certificate signature, hstands.decode_eq⟩
  · intro l signature tail hstands
    refine ⟨fun c => ?_, fun l' signature' tail' hstands' => hstands'.unique hstands⟩
    rw [hstands.decode_eq, holds_iff, Except.ok.injEq, eq_comm]
  · intro e he
    rcases kind_of_decode_eq_error he with ⟨hbegins, hkind⟩ | ⟨hbegins, hkind⟩
    · simp [hbegins, hkind]
    · simp [hbegins, hkind]

/-- The fields of a certificate whose options are neither in order nor all different. -/
def Layout.unordered : Layout where
  algorithm := ascii "ssh-ed25519-cert-v01@openssh.com"
  nonce := [1, 2, 3]
  key := [List.replicate 32 5]
  serial := 7
  typeCode := 3
  keyId := ascii "ann"
  principals := [ascii "ann", ascii "root"]
  validAfter := 0
  validBefore := 9
  criticalOptions := [(ascii "force-command", [1]), (ascii "force-command", [2])]
  extensions := [(ascii "permit-pty", []), (ascii "permit-X11-forwarding", [])]
  reserved := []
  signatureKey := [9]

theorem Layout.wellFormed_unordered : Layout.unordered.WellFormed := by
  refine ⟨⟨.ed25519, ?_, ?_⟩, ?_, ?_, ?_, ?_, ?_, ?_, ?_, ?_, ?_⟩ <;> decide

theorem Layout.stands_unordered :
    Layout.unordered.Stands [4] [7, 7]
      (Layout.unordered.encode ++ (encodeString [4] ++ [7, 7])) :=
  Layout.stands_iff.mpr ⟨Layout.wellFormed_unordered, by decide, rfl⟩

/-- The same fields with another algorithm and as many parts of a key as are given. -/
def Layout.unorderedWith (algorithm : Bytes) (count : Nat) : Layout :=
  { unordered with algorithm, key := List.replicate count (List.replicate 32 5) }

theorem Layout.stands_unorderedWith {algorithm : Bytes} {count : Nat} (hfits : Fits algorithm)
    (hform : ∃ form ∈ keyForms, form.1 <+: algorithm ∧ count = form.2) (tail : Bytes) :
    (unorderedWith algorithm count).Stands [4] tail
      ((unorderedWith algorithm count).encode ++ (encodeString [4] ++ tail)) := by
  have hwf := wellFormed_unordered
  have hpart : Fits (List.replicate 32 5) := by decide
  have hcount : (unorderedWith algorithm count).key.length = count := List.length_replicate
  refine stands_iff.mpr ⟨⟨?_, hfits, hwf.nonce, fun part h => ?_, hwf.keyId, hwf.principals,
    hwf.criticalOptions, hwf.extensions, hwf.reserved, hwf.signatureKey⟩, by decide, rfl⟩
  · rw [hcount]
    exact exists_family_iff.mpr hform
  · rw [List.eq_of_mem_replicate h]
    exact hpart

/-- A certificate of each form: of two options with one name the last one is kept. An algorithm of
no form is an error of its own, and one without fields behind it is an error of the data. -/
theorem decode_iff_grammar_unordered :
    let names := [(ascii "ssh-rsa-cert-v01@openssh.com", 2),
      (ascii "ecdsa-sha2-nistp256-cert-v01@openssh.com", 2),
      (ascii "ssh-ed25519-cert-v01@openssh.com", 1), (ascii "ssh-dss-cert-v01@openssh.com", 4)]
    (∀ name ∈ names,
      let l := Layout.unorderedWith name.1 name.2
      let b := l.encode ++ (encodeString [4] ++ [7, 7])
      l.Stands [4] [7, 7] b ∧
        ∃ c, decode b = .ok c ∧ c.algorithm = name.1 ∧
          c.keyMaterial = encodeStrings (List.replicate name.2 (List.replicate 32 5)) ∧
          c.type = .unknown ∧ c.principals = [ascii "ann", ascii "root"] ∧
          c.criticalOptions.get? (ascii "force-command") = some [2]) ∧
      (∃ e, decode (encodeString (ascii "ssh-foo")) = .error e ∧ e.kind = .unsupportedKeyType) ∧
      ∃ e, decode (encodeString (ascii "ssh-dss")) = .error e ∧ e.kind = .invalidCertificate := by
  intro names
  have hforms : ∀ name ∈ names,
      Fits name.1 ∧ ∃ form ∈ keyForms, form.1 <+: name.1 ∧ name.2 = form.2 := by
    simp only [names, List.forall_mem_cons]
    exact ⟨⟨by decide, (ascii "ssh-rsa", 2), by decide, by decide, rfl⟩,
      ⟨by decide, (ascii "ecdsa-sha2-nistp", 2), by decide, by decide, rfl⟩,
      ⟨by decide, (ascii "ssh-ed25519", 1), by decide, by decide, rfl⟩,
      ⟨by decide, (ascii "ssh-dss", 4), by decide, by decide, rfl⟩, nofun⟩
  refine ⟨fun name hname => ?_, ?_, ?_⟩
  · obtain ⟨hfits, hform⟩ := hforms name hname
    have hstands := Layout.stands_unorderedWith hfits hform [7, 7]
    obtain ⟨haccepted, hfields, -⟩ := decode_iff_grammar
      ((Layout.unorderedWith name.1 name.2).encode ++ (encodeString [4] ++ [7, 7]))
    obtain ⟨c, hc⟩ := haccepted.mpr ⟨_, _, _, hstands⟩
    have holds := ((hfields _ _ _ hstands).1 c).mp hc
    refine ⟨hstands, c, hc, holds.algorithm, holds.keyMaterial, holds.type, holds.principals, ?_⟩
    exact (holds.criticalOptions _ _).mpr ⟨[(ascii "force-command", [1])], [], rfl, nofun⟩
  · obtain ⟨-, -, hrefused⟩ := decode_iff_grammar (encodeString (ascii "ssh-foo"))
    have hfoo : decode (encodeString (ascii "ssh-foo")) =
        .error (.unsupportedAlgorithm (ascii "ssh-foo")) := by
      decide
    refine ⟨_, hfoo, (hrefused _ hfoo).1.mpr ⟨ascii "ssh-foo", [], by decide, ?_, by decide⟩⟩
    rw [List.append_nil]
  · obtain ⟨-, -, hrefused⟩ := decode_iff_grammar (encodeString (ascii "ssh-dss"))
    have hdss : decode (encodeString (ascii "ssh-dss")) = .error (.truncated .nonce) := by
      decide
    refine ⟨_, hdss, (hrefused _ hdss).2.mpr fun hbegins => ?_⟩
    have hkind := (hrefused _ hdss).1.mpr hbegins
    cases hkind

end SshCert.Certificate

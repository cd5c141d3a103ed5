import SshCert.Proofs.Certificate.Grammar

/-
  Certificates that are cut short or have bytes behind them.
  The decoder takes its fourteen fields one after another (`takes_read`). A part of a certificate
  is therefore refused for the first field that does not end in it, by the name that the field has
  in `Field.named`, and what stands behind the signature changes nothing (`decode_take`).
-/

namespace SshCert.Certificate

open Wire

/-! ## The decoder -/

theorem takes_read {l : Layout} (hl : l.WellFormed) {signature : Bytes} (hsig : Fits signature) :
    Takes read (l.portion signature) Field.all (l.certificate signature) := by
  rw [read_eq_layout]
  refine (Layout.takes_read hl signature).bind ?_
  exact Takes.field_bind exact_string hsig rfl (takes_pure _ _)

/-! ## Places in the data -/

/-- Every place in a row of portions lies in one of them. -/
theorem exists_field_of_lt {portion : Field → Bytes} {fs : List Field} {k : Nat}
    (hk : k < (fs.flatMap portion).length) :
    ∃ before f after, fs = before ++ f :: after ∧ (before.flatMap portion).length ≤ k ∧
      k < (before.flatMap portion).length + (portion f).length := by
  induction fs generalizing k with
  | nil => simp at hk
  | cons g gs ih =>
    by_cases hg : k < (portion g).length
    · exact ⟨[], g, gs, rfl, by simp, by simpa using hg⟩
    · rw [List.flatMap_cons, List.length_append] at hk
      have hbehind : k - (portion g).length < (gs.flatMap portion).length := by omega
      obtain ⟨before, f, after, rfl, hle, hlt⟩ := ih hbehind
      refine ⟨g :: before, f, after, rfl, ?_, ?_⟩
      · rw [List.flatMap_cons, List.length_append]
        omega
      · rw [List.flatMap_cons, List.length_append]
        omega

/-- The fields in the order in which they stand, each with its name in messages. -/
def Field.named : List (Field × Bytes) :=
  [(.algorithm, ascii "algorithm"), (.nonce, ascii "nonce"), (.publicKey, ascii "public key"),
    (.serial, ascii "serial"), (.type, ascii "type"), (.keyId, ascii "key id"),
    (.principals, ascii "principals"), (.validAfter, ascii "valid after"),
    (.validBefore, ascii "valid before"), (.criticalOptions, ascii "critical options"),
    (.extensions, ascii "extensions"), (.reserved, ascii "reserved"),
    (.signatureKey, ascii "signature key"), (.signature, ascii "signature")]

theorem Field.named_eq : Field.named = Field.all.map fun f => (f, f.name) := rfl

theorem Field.find?_named {p : Field → Bool} {f : Field} (h : Field.all.find? p = some f) :
    Field.named.find? (fun row => p row.1) = some (f, f.name) := by
  have hp : (fun row : Field × Bytes => p row.1) ∘ (fun g => (g, g.name)) = p := rfl
  rw [Field.named_eq, List.find?_map, hp, h, Option.map_some]

theorem Field.nodup_all : Field.all.Nodup := by
  decide

theorem Field.upTo_eq {before after : List Field} {f : Field}
    (h : Field.all = before ++ f :: after) : f.upTo = before ++ [f] := by
  have hnodup := Field.nodup_all
  rw [h, List.nodup_append] at hnodup
  have hbefore : ∀ g ∈ before, decide (g ≠ f) = true := by
    intro g hg
    have hne : g ≠ f := hnodup.2.2 g hg f (by simp)
    simpa using hne
  rw [Field.upTo, h, List.takeWhile_append_of_pos hbefore]
  simp

theorem Layout.endOffset_eq {l : Layout} {signature : Bytes} {before after : List Field}
    {f : Field} (h : Field.all = before ++ f :: after) :
    l.endOffset signature f =
      (before.flatMap (l.portion signature)).length + (l.portion signature f).length := by
  simp [Layout.endOffset, Field.upTo_eq h]

/-- The fields in front of a place end at it or before it, and the field of the place behind it. -/
theorem Layout.find?_endOffset {l : Layout} {signature : Bytes} {before after : List Field}
    {f : Field} {k : Nat} (h : Field.all = before ++ f :: after)
    (hle : (before.flatMap (l.portion signature)).length ≤ k)
    (hlt : k < (before.flatMap (l.portion signature)).length + (l.portion signature f).length) :
    Field.all.find? (fun g => k < l.endOffset signature g) = some f := by
  have hbehind : k < l.endOffset signature f := by
    rw [Layout.endOffset_eq h]
    exact hlt
  have hbefore : ∀ g ∈ before, l.endOffset signature g ≤ k := by
    intro g hg
    obtain ⟨first, second, rfl⟩ := List.append_of_mem hg
    have hsplit : Field.all = first ++ g :: (second ++ f :: after) := by
      rw [h, List.append_assoc, List.cons_append]
    rw [List.flatMap_append, List.flatMap_cons, List.length_append, List.length_append] at hle
    rw [Layout.endOffset_eq hsplit]
    omega
  rw [List.find?_eq_some_iff_append]
  refine ⟨by simpa using hbehind, before, after, h, fun g hg => ?_⟩
  simpa using hbefore g hg

/-! ## Cut and extended data -/

/-- A part of the data that ends inside a field. -/
theorem Layout.Stands.take_cut {l : Layout} {signature tail b : Bytes}
    (h : l.Stands signature tail b) {before after : List Field} {f : Field} {k : Nat}
    (hall : Field.all = before ++ f :: after)
    (hle : (before.flatMap (l.portion signature)).length ≤ k)
    (hlt : k < (before.flatMap (l.portion signature)).length + (l.portion signature f).length) :
    b.take k = before.flatMap (l.portion signature) ++
      (l.portion signature f).take (k - (before.flatMap (l.portion signature)).length) := by
  rw [h.data_eq, hall, List.flatMap_append, List.flatMap_cons, List.append_assoc,
    List.append_assoc, List.take_append, List.take_of_length_le hle,
    List.take_append_of_le_length (by omega)]

/-- Data in which the fields are whole hold the same certificate. -/
theorem Layout.Stands.take_append {l : Layout} {signature tail b : Bytes}
    (h : l.Stands signature tail b) {k : Nat} (hk : l.endOffset signature .signature ≤ k)
    (t : Bytes) :
    l.Stands signature (tail.take (k - l.endOffset signature .signature) ++ t) (b.take k ++ t) := by
  refine ⟨h.form, h.fits, ?_⟩
  have hend : l.endOffset signature .signature =
      (Field.all.flatMap (l.portion signature)).length := rfl
  rw [hend] at hk ⊢
  rw [h.data_eq, List.take_append, List.take_of_length_le hk, List.append_assoc]

/-- A part of a certificate that ends in front of the end of the signature is refused, and the
message names the first field that does not end in the part. A longer part gives the same
certificate, whatever is put behind it. -/
theorem decode_take {b : Bytes} {c : Certificate} (h : decode b = .ok c) :
    ∃ l signature tail, Layout.Stands l signature tail b ∧
      (∀ k < l.endOffset signature .signature, ∃ f name e,
        Field.named.find? (fun row => k < l.endOffset signature row.1) = some (f, name) ∧
        decode (b.take k) = .error e ∧ e.kind = .invalidCertificate ∧
        e.message = ascii "Invalid certificate: truncated " ++ name) ∧
      ∀ k ≥ l.endOffset signature .signature, ∀ t, decode (b.take k ++ t) = .ok c := by
  obtain ⟨l, signature, tail, hstands, rfl⟩ := decode_eq_ok_iff_stands.mp h
  obtain ⟨hwf, hsignature, -⟩ := Layout.stands_iff.mp hstands
  refine ⟨l, signature, tail, hstands, fun k hk => ?_, fun k hk t => ?_⟩
  · have hfields : k < (Field.all.flatMap (l.portion signature)).length := hk
    obtain ⟨before, f, after, hall, hle, hlt⟩ := exists_field_of_lt hfields
    have hinside : k - (before.flatMap (l.portion signature)).length <
        (l.portion signature f).length := by omega
    have hfind := Layout.find?_endOffset hall hle hlt
    refine ⟨f, f.name, .truncated f, Field.find?_named hfind, ?_, rfl, rfl⟩
    rw [decode_eq_error_iff, hstands.take_cut hall hle hlt]
    exact (takes_read hwf hsignature).cut hall hinside
  · exact (hstands.take_append hk t).decode_eq

/-- A certificate cut in front of the last byte of each of its fields, and one cut behind its
signature. -/
theorem decode_take_unordered :
    let b := Layout.unordered.encode ++ (encodeString [4] ++ [7, 7])
    let c := Layout.unordered.certificate [4]
    let cuts := [(35, ascii "algorithm"), (42, ascii "nonce"), (78, ascii "public key"),
      (86, ascii "serial"), (90, ascii "type"), (97, ascii "key id"), (116, ascii "principals"),
      (124, ascii "valid after"), (132, ascii "valid before"), (180, ascii "critical options"),
      (231, ascii "extensions"), (235, ascii "reserved"), (240, ascii "signature key"),
      (245, ascii "signature")]
    decode b = .ok c ∧
      (∀ cut ∈ cuts, ∃ e, decode (b.take cut.1) = .error e ∧ e.kind = .invalidCertificate ∧
        e.message = ascii "Invalid certificate: truncated " ++ cut.2) ∧
      decode (b.take 246) = .ok c ∧ decode (b.take 247 ++ [1]) = .ok c := by
  intro b c cuts
  have hdecode : decode b = .ok c := Layout.stands_unordered.decode_eq
  obtain ⟨l, signature, tail, hstands, hcut, hwhole⟩ := decode_take hdecode
  obtain ⟨rfl, rfl, -⟩ := hstands.unique Layout.stands_unordered
  have hend : Layout.unordered.endOffset [4] .signature = 246 := by decide +kernel
  have hcuts : ∀ cut ∈ cuts, cut.1 < 246 ∧
      (Field.named.find? fun row => cut.1 < Layout.unordered.endOffset [4] row.1).map Prod.snd =
        some cut.2 := by
    decide +kernel
  rw [hend] at hcut hwhole
  refine ⟨hdecode, fun cut h => ?_, ?_, hwhole 247 (by decide) [1]⟩
  · obtain ⟨hlt, hname⟩ := hcuts cut h
    obtain ⟨f, name, e, hfind, herror, hkind, hmessage⟩ := hcut cut.1 hlt
    rw [hfind] at hname
    rw [← Option.some.inj hname]
    exact ⟨e, herror, hkind, hmessage⟩
  · have hexact := hwhole 246 (Nat.le_refl _) []
    rwa [List.append_nil] at hexact

end SshCert.Certificate

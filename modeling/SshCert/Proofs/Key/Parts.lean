import SshCert.Proofs.Key.Blob

/-
  Keys in rows of strings.
  The fields of a key stand in its blob as a row of strings, one for Ed25519 and two for the other
  types. `PublicKey.HeldBy` says which rows hold a key, and a blob is read as a key exactly if it
  begins with the name of the type and such a row (`PublicKey.parse_eq_ok_iff`).
-/

namespace SshCert

open Wire

namespace KeyType

/-- The family of certificates for keys of the type. -/
def family : KeyType → Family
  | .rsa => .rsa
  | .dss => .dss
  | .ed25519 => .ed25519
  | .ecdsa _ => .ecdsa

theorem stem_prefix_name (k : KeyType) : k.family.stem <+: k.name := by
  rw [← List.isPrefixOf_iff_prefix]
  cases k with
  | ecdsa c => cases c <;> decide
  | _ => decide

theorem name_of_ofName? {name : Bytes} {k : KeyType} (h : ofName? name = some k) :
    k.name = name := by
  have hfound := List.find?_some h
  exact beq_iff_eq.mp hfound

end KeyType

namespace PublicKey

/-- The strings are the fields of the key. A number may have leading zeros there. -/
def HeldBy : PublicKey → List Bytes → Prop
  | .ed25519 key, parts => parts = [key] ∧ key.length = ed25519KeySize
  | .rsa e n, parts =>
    ∃ first second, parts = [first, second] ∧ e = Bytes.dropZeros first ∧ n = Bytes.dropZeros second
  | .ecdsa c point, parts => parts = [c.name, point]

theorem twoStrings?_eq_some_iff {b first second : Bytes} :
    twoStrings? b = some (first, second) ↔
      ∃ rest, (∀ part ∈ [first, second], Fits part) ∧
        b = encodeStrings [first, second] ++ rest := by
  constructor
  · intro h
    obtain ⟨⟨first', r⟩, hfirst, h⟩ := Option.bind_eq_some_iff.mp h
    obtain ⟨⟨second', rest⟩, hsecond, h⟩ := Option.bind_eq_some_iff.mp h
    cases h
    obtain ⟨hfits, rfl⟩ := string_eq_some_iff.mp hfirst
    obtain ⟨hfits', rfl⟩ := string_eq_some_iff.mp hsecond
    refine ⟨rest, ?_, ?_⟩
    · simp only [List.forall_mem_cons]
      exact ⟨hfits, hfits', nofun⟩
    · simp
  · intro h
    obtain ⟨rest, hfits, rfl⟩ := h
    have hfirst : Fits first := hfits first (.head _)
    have hsecond : Fits second := hfits second (.tail _ (.head _))
    have hrow : encodeStrings [first, second] ++ rest =
        encodeString first ++ (encodeString second ++ rest) := by
      simp
    rw [hrow, twoStrings?_encodeString hfirst hsecond]

/-- What is read as the fields of a type begins with a row that holds a key of the type. -/
theorem heldBy_of_parseFields {type : KeyType} {b : Bytes} {k : PublicKey}
    (h : parseFields (some type) b = .ok k) :
    k.type = type ∧ ∃ parts rest, k.HeldBy parts ∧ (∀ part ∈ parts, Fits part) ∧
      b = encodeStrings parts ++ rest := by
  unfold parseFields at h
  split at h
  · next htype =>
    split at h
    · next key rest hs =>
      split at h
      · next hsize =>
        cases h
        obtain ⟨hfits, rfl⟩ := string_eq_some_iff.mp hs
        refine ⟨(Option.some.inj htype).symm, [key], rest, ⟨rfl, hsize⟩, ?_, ?_⟩
        · exact List.forall_mem_cons.mpr ⟨hfits, nofun⟩
        · rw [encodeStrings_cons, encodeStrings_nil, List.append_nil]
      · cases h
    · cases h
  · next htype =>
    split at h
    · next first second hs =>
      cases h
      obtain ⟨rest, hfits, rfl⟩ := twoStrings?_eq_some_iff.mp hs
      exact ⟨(Option.some.inj htype).symm, [first, second], rest, ⟨first, second, rfl, rfl, rfl⟩,
        hfits, rfl⟩
    · cases h
  · next c htype =>
    split at h
    · next curve point hs =>
      split at h
      · next hcurve =>
        cases h
        obtain ⟨rest, hfits, rfl⟩ := twoStrings?_eq_some_iff.mp hs
        subst hcurve
        exact ⟨(Option.some.inj htype).symm, [c.name, point], rest, rfl, hfits, rfl⟩
      · cases h
    · cases h
  · cases h

/-- A row that holds a key is read as its fields, whatever follows it. -/
theorem HeldBy.parseFields_append {k : PublicKey} {parts : List Bytes} (h : k.HeldBy parts)
    (hfits : ∀ part ∈ parts, Fits part) (rest : Bytes) :
    parseFields (some k.type) (encodeStrings parts ++ rest) = .ok k := by
  cases k with
  | ed25519 key =>
    obtain ⟨rfl, hsize⟩ := h
    have hkey : Fits key := hfits key (.head _)
    have hread : Wire.string (encodeStrings [key] ++ rest) = some (key, rest) := by
      rw [encodeStrings_cons, encodeStrings_nil, List.append_nil, string_encodeString hkey]
    unfold parseFields
    dsimp only [type]
    rw [hread]
    exact if_pos hsize
  | rsa e n =>
    obtain ⟨first, second, rfl, rfl, rfl⟩ := h
    have hread := twoStrings?_eq_some_iff.mpr ⟨rest, hfits, rfl⟩
    unfold parseFields
    dsimp only [type]
    rw [hread]
  | ecdsa c point =>
    obtain rfl : parts = [c.name, point] := h
    have hread := twoStrings?_eq_some_iff.mpr ⟨rest, hfits, rfl⟩
    unfold parseFields
    dsimp only [type]
    rw [hread]
    exact if_pos rfl

/-- A blob is read as a key exactly if it begins with the name of the type and a row of strings that
holds the key. -/
theorem parse_eq_ok_iff {b : Bytes} {k : PublicKey} :
    parse b = .ok k ↔ ∃ parts rest, k.HeldBy parts ∧ (∀ part ∈ parts, Fits part) ∧
      b = encodeString k.type.name ++ (encodeStrings parts ++ rest) := by
  constructor
  · intro h
    unfold parse at h
    split at h
    · cases h
    · next name r hs =>
      obtain ⟨-, rfl⟩ := string_eq_some_iff.mp hs
      cases hname : KeyType.ofName? name with
      | none =>
        rw [hname] at h
        cases h
      | some type =>
        rw [hname] at h
        obtain ⟨rfl, parts, rest, hheld, hfits, rfl⟩ := heldBy_of_parseFields h
        rw [← KeyType.name_of_ofName? hname]
        exact ⟨parts, rest, hheld, hfits, rfl⟩
  · intro h
    obtain ⟨parts, rest, hheld, hfits, rfl⟩ := h
    unfold parse
    rw [string_encodeString k.type.fits_name]
    dsimp only
    rw [KeyType.ofName?_name]
    exact hheld.parseFields_append hfits rest

/-! ## The type of a held key -/

/-- How many strings hold a key depends on its type alone. -/
theorem HeldBy.length_eq {k : PublicKey} {parts : List Bytes} (h : k.HeldBy parts) :
    parts.length = k.type.family.fieldCount := by
  cases k with
  | ed25519 key =>
    obtain ⟨rfl, -⟩ := h
    rfl
  | rsa e n =>
    obtain ⟨first, second, rfl, -⟩ := h
    rfl
  | ecdsa c point =>
    obtain rfl : parts = [c.name, point] := h
    rfl

end PublicKey

end SshCert

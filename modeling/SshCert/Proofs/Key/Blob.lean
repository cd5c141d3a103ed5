import SshCert.Key.Private
import SshCert.Proofs.Algorithm.Name
import SshCert.Proofs.Wire.Mpint

/-
  Blobs of public keys.
  Values are `Normal` if reading a blob can give them: numbers have no leading zeros and an
  Ed25519 key has its size. Such values are read back from their blob whatever follows it
  (`PublicKey.parse_encode_append`).
-/

namespace SshCert

open Wire

namespace PublicKey

/-! ## Blobs as bytes -/

theorem encode_ed25519 (key : Bytes) :
    (ed25519 key).encode = encodeString KeyType.ed25519.name ++ encodeString key := by
  simp [encode, values, fields, type]

theorem encode_rsa (e n : Bytes) :
    (rsa e n).encode = encodeString KeyType.rsa.name ++ (encodeString (Mpint.unsigned e).payload
      ++ encodeString (Mpint.unsigned n).payload) := by
  simp [encode, values, fields, type]

theorem encode_ecdsa (c : Curve) (point : Bytes) :
    (ecdsa c point).encode =
      encodeString (KeyType.ecdsa c).name ++ (encodeString c.name ++ encodeString point) := by
  simp [encode, values, fields, type]

/-- A blob begins with the name of the type. -/
theorem encode_eq_append (k : PublicKey) :
    k.encode = encodeString k.type.name ++ encodeAll k.fields :=
  rfl

theorem twoStrings?_encodeString {first second : Bytes} (hfirst : Fits first)
    (hsecond : Fits second) (rest : Bytes) :
    twoStrings? (encodeString first ++ (encodeString second ++ rest)) = some (first, second) := by
  unfold twoStrings?
  rw [string_encodeString hfirst]
  refine Option.bind_eq_some_iff.mpr ⟨_, rfl, ?_⟩
  dsimp only
  rw [string_encodeString hsecond]
  rfl

/-! ## Values that a blob can give -/

/-- The form of values that are read from a blob. -/
def Normal : PublicKey → Prop
  | .ed25519 key => key.length = ed25519KeySize
  | .rsa e n => Bytes.dropZeros e = e ∧ Bytes.dropZeros n = n
  | .ecdsa _ _ => True

instance : (k : PublicKey) → Decidable k.Normal
  | .ed25519 _ => inferInstanceAs (Decidable (_ = _))
  | .rsa _ _ => inferInstanceAs (Decidable (_ ∧ _))
  | .ecdsa _ _ => inferInstanceAs (Decidable True)

/-- Normal values are read back from their blob. -/
theorem parse_encode_append {k : PublicKey} (hk : k.Normal) (hfits : Fits k.encode)
    (rest : Bytes) : parse (k.encode ++ rest) = .ok k := by
  unfold parse
  rw [encode_eq_append, List.append_assoc, string_encodeString k.type.fits_name]
  dsimp only
  rw [KeyType.ofName?_name]
  unfold Fits at hfits
  cases k with
  | ed25519 key =>
    have hlen : Fits key := by
      rw [encode_ed25519, List.length_append, length_encodeString key] at hfits
      unfold Fits
      omega
    simp only [type, fields, parseFields, encodeAll_cons, encode_string, encodeAll_nil,
      List.append_nil]
    rw [string_encodeString hlen]
    exact if_pos hk
  | rsa e n =>
    rw [encode_rsa] at hfits
    simp only [List.length_append, length_encodeString] at hfits
    have he : Fits (Mpint.unsigned e).payload := by
      unfold Fits
      omega
    have hn : Fits (Mpint.unsigned n).payload := by
      unfold Fits
      omega
    simp only [type, fields, parseFields, encodeAll_cons, encode_mpint, encodeAll_nil,
      List.append_nil, List.append_assoc]
    rw [twoStrings?_encodeString he hn]
    dsimp only
    rw [Mpint.dropZeros_payload, Mpint.dropZeros_payload, hk.1, hk.2]
  | ecdsa c point =>
    have hlen : Fits point := by
      rw [encode_ecdsa] at hfits
      simp only [List.length_append, length_encodeString] at hfits
      unfold Fits
      omega
    simp only [type, fields, parseFields, encodeAll_cons, encode_string, encodeAll_nil,
      List.append_nil, List.append_assoc]
    rw [twoStrings?_encodeString c.fits_name hlen]
    exact if_pos rfl

end PublicKey

end SshCert

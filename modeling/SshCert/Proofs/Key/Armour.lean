import SshCert.Proofs.Key.Wrapping

/-
  Armour that is put on is taken off again.
  The armour is one way to wrap a body, in lines of one length. No character of base64 ends a line
  or begins a marker, so that the reader finds all of them between the markers
  (`KeyFile.body?_armour`) and reads what the data hold (`KeyFile.parse_armour`).
-/

namespace SshCert.KeyFile

/-- The armour of the data as a body in chunks. -/
def armouring (data : Bytes) : Wrapping where
  lead := [0x0a]
  chunks := (Pem.body data).map fun line => (line, [0x0a])
  behind := [0x0a]

theorem text_armouring (data : Bytes) : (armouring data).text = Pem.armour label data := by
  have hlines : (Pem.body data).flatMap (fun line => line ++ [0x0a]) =
      (Pem.body data).flatMap Pem.endLine := rfl
  simp [Wrapping.text, armouring, Pem.armour_eq_flatMap, Pem.endLine, List.flatMap_map, hlines,
    beginMarker_label, endMarker_label]

theorem joined_armouring (data : Bytes) : (armouring data).joined = Base64.encode data := by
  rw [Wrapping.joined, armouring, List.flatMap_map, ← Pem.flatten_body]
  simp

theorem wellFormed_armouring (data : Bytes) : (armouring data).WellFormed := by
  have hend : ∀ c ∈ ([0x0a] : Bytes), EndsLine c := List.forall_mem_singleton.mpr (Or.inl rfl)
  have hseparated : (armouring data).Separated := by
    refine ⟨hend, ?_, ?_⟩
    · intro p hp
      obtain ⟨line, -, rfl⟩ := List.mem_map.mp hp
      exact hend
    · intro p hp
      obtain ⟨line, -, rfl⟩ := List.mem_map.mp hp
      exact List.cons_ne_nil _ _
  refine hseparated.wellFormed fun c hc => ?_
  rw [joined_armouring] at hc
  exact Pem.plain_of_mem_encode hc

theorem isKeyFile_armour (data : Bytes) : isKeyFile (Pem.armour label data) = true := by
  rw [← text_armouring]
  exact Wrapping.isKeyFile_text _

theorem body?_armour (data : Bytes) :
    body? (Pem.armour label data) = some (Base64.encode data) := by
  rw [← text_armouring, (wellFormed_armouring data).body?_text, joined_armouring]

theorem parse_armour (data : Bytes) : parse (Pem.armour label data) = parseData data := by
  rw [← text_armouring, (wellFormed_armouring data).parse_text, joined_armouring,
    Base64.getD_decode_encode]

end SshCert.KeyFile

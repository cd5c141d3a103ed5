import SshCert.Proofs.Wire.Mpint
import SshCert.Suite.Standard
import SshCert.Wire.Cursor
import SshCert.Wire.Sink

/-
  What is written is what is read.
  A value that can be written is read back by the reader of its kind in front of anything
  (`Kind.read_encode`), and so is a row of values, one after another (`Cursor.run_encodeAll`).
  Every sink gets the same bytes: one that appends gets them at its end, the portions of a
  message hold them, and a buffer has them at the position where the writing started, over what
  stood there and behind zeros where it was too short (`writeAll_placed`). `writeAll_roundTrip`
  puts both sides together.
-/

namespace SshCert

/-! ## Digests of portions -/

namespace Suite

/-- How a message is cut into portions does not matter to its digest. -/
def DigestsWhole (s : Suite) : Prop :=
  ∀ (h : HashType) (portions : List Bytes), s.digest h portions = s.digest h [portions.flatten]

theorem digestsWhole_standard : standard.DigestsWhole := by
  intro h portions
  show h.digest portions.flatten = h.digest [portions.flatten].flatten
  rw [List.flatten_singleton]

end Suite

namespace Wire

/-! ## One value -/

namespace Value

/-- Whether the value can be written so that it is read back: the length in front of a string does
not wrap, and an integer is not negative. -/
def Writable : Value → Prop
  | .string b => Fits b
  | .mpint (.unsigned d) => d.length + 1 < Bytes.valueCount 4
  | .mpint (.signed _) => False
  | _ => True

instance : DecidablePred Writable
  | .string b => inferInstanceAs (Decidable (Fits b))
  | .mpint (.unsigned d) => inferInstanceAs (Decidable (d.length + 1 < Bytes.valueCount 4))
  | .mpint (.signed _) => isFalse id
  | .u8 _ => isTrue trivial
  | .u32 _ => isTrue trivial
  | .u64 _ => isTrue trivial
  | .bool _ => isTrue trivial
  | .bytes _ => isTrue trivial

/-- What is read where the value was written: an integer has lost its leading zeros. -/
def readBack : Value → Value
  | .mpint (.unsigned d) => .mpint (.unsigned (Bytes.dropZeros d))
  | v => v

theorem pieces_ne_nil (v : Value) : v.pieces ≠ [] := by
  cases v <;> exact List.cons_ne_nil _ _

end Value

theorem map_of_eq_some {α β : Type} {r : Reader α} {b rest : Bytes} {a : α} (f : α → β)
    (h : r b = some (a, rest)) : (f <$> r) b = some (f a, rest) := by
  show (r b).bind _ = _
  rw [h]
  rfl

/-- A written value is read back in front of anything. -/
theorem Kind.read_encode {v : Value} (hv : v.Writable) (rest : Bytes) :
    v.kind.read (v.encode ++ rest) = some (v.readBack, rest) := by
  match v with
  | .u8 x => exact map_of_eq_some _ (u8_eq_some_iff.mpr rfl)
  | .u32 w =>
    rw [encode_u32]
    exact map_of_eq_some _ (u32_eq_some_iff.mpr rfl)
  | .u64 w =>
    rw [encode_u64]
    exact map_of_eq_some _ (u64_eq_some_iff.mpr rfl)
  | .bool x =>
    refine map_of_eq_some _ (bool_eq_some_iff.mpr ⟨if x then 1 else 0, ?_, rfl⟩)
    cases x <;> rfl
  | .string b => exact map_of_eq_some _ (string_encodeString hv rest)
  | .mpint (.unsigned d) =>
    have hread := Mpint.read_encodeString (Mpint.fits_payload hv) rest
    rw [Mpint.ofPayload_payload] at hread
    rw [encode_mpint]
    exact map_of_eq_some _ hread
  | .bytes b =>
    rw [encode_bytes]
    exact map_of_eq_some _ (take_eq_some_iff.mpr ⟨rfl, rfl⟩)

/-! ## A row of values -/

namespace Cursor

/-- A step over a written value gives the value and moves behind it. -/
theorem step_encode {v : Value} (hv : v.Writable) (used : Nat) (rest : Bytes) :
    step ⟨used, v.encode ++ rest⟩ v.kind = (some v.readBack, ⟨used + v.encode.length, rest⟩) := by
  have hmoved : (v.encode ++ rest).length - rest.length = v.encode.length := by
    rw [List.length_append]
    omega
  unfold step
  rw [Kind.read_encode hv]
  simp only [hmoved]

/-- A run over written values gives all of them and leaves what stands behind. -/
theorem run_encodeAll {vs : List Value} (hvs : ∀ v ∈ vs, v.Writable) (used : Nat) (rest : Bytes) :
    run ⟨used, encodeAll vs ++ rest⟩ (vs.map Value.kind) =
      (vs.map fun v => some v.readBack, ⟨used + (encodeAll vs).length, rest⟩) := by
  induction vs generalizing used with
  | nil => rfl
  | cons v vs ih =>
    obtain ⟨hv, hvs⟩ := List.forall_mem_cons.mp hvs
    have hsize : used + v.encode.length + (encodeAll vs).length =
        used + (encodeAll (v :: vs)).length := by
      rw [encodeAll_cons, List.length_append]
      omega
    rw [List.map_cons, run, encodeAll_cons, List.append_assoc, step_encode hv]
    simp only [ih hvs, hsize, List.map_cons]
    rw [encodeAll_cons]

end Cursor

/-! ## Sinks -/

/-- All portions of the values, in order. -/
def allPieces (vs : List Value) : List Bytes := vs.flatMap Value.pieces

theorem allPieces_cons (v : Value) (vs : List Value) :
    allPieces (v :: vs) = v.pieces ++ allPieces vs :=
  List.flatMap_cons

theorem flatten_allPieces (vs : List Value) : (allPieces vs).flatten = encodeAll vs := by
  induction vs with
  | nil => rfl
  | cons v vs ih =>
    rw [allPieces_cons, List.flatten_append, ih, encodeAll_cons]
    rfl

theorem allPieces_ne_nil {vs : List Value} (h : vs ≠ []) : allPieces vs ≠ [] := by
  cases vs with
  | nil => exact absurd rfl h
  | cons v vs =>
    rw [allPieces_cons]
    exact List.append_ne_nil_of_left_ne_nil v.pieces_ne_nil _

/-- A sink gets the portions of all values, one after another. -/
theorem writeAll_eq_foldl {σ : Type} [Sink σ] (s : σ) (vs : List Value) :
    writeAll s vs = (allPieces vs).foldl Sink.put s := by
  unfold writeAll allPieces
  rw [List.foldl_flatMap]
  rfl

/-! ### At the end of a byte string and portions of a message -/

theorem foldl_put_appended (b : Bytes) (ps : List Bytes) :
    ps.foldl Sink.put (⟨b⟩ : Appended) = ⟨b ++ ps.flatten⟩ := by
  induction ps generalizing b with
  | nil => simp
  | cons p ps ih =>
    have hput : Sink.put (⟨b⟩ : Appended) p = ⟨b ++ p⟩ := rfl
    rw [List.foldl_cons, hput, ih, List.flatten_cons, List.append_assoc]

theorem writeAll_appended (b : Bytes) (vs : List Value) :
    writeAll (⟨b⟩ : Appended) vs = ⟨b ++ encodeAll vs⟩ := by
  rw [writeAll_eq_foldl, foldl_put_appended, flatten_allPieces]

theorem foldl_put_portions (qs ps : List Bytes) :
    ps.foldl Sink.put (⟨qs⟩ : Portions) = ⟨qs ++ ps⟩ := by
  induction ps generalizing qs with
  | nil => simp
  | cons p ps ih =>
    have hput : Sink.put (⟨qs⟩ : Portions) p = ⟨qs ++ [p]⟩ := rfl
    rw [List.foldl_cons, hput, ih, List.append_assoc, List.singleton_append]

theorem writeAll_portions (qs : List Bytes) (vs : List Value) :
    writeAll (⟨qs⟩ : Portions) vs = ⟨qs ++ allPieces vs⟩ := by
  rw [writeAll_eq_foldl, foldl_put_portions]

/-- Values that are hashed as they are written have the digest of their bytes. -/
theorem digest_writeAll {s : Suite} (hs : s.DigestsWhole) (h : HashType) (qs : List Bytes)
    (vs : List Value) :
    s.digest h (writeAll (⟨qs⟩ : Portions) vs).list =
      s.digest h [qs.flatten ++ encodeAll vs] := by
  rw [writeAll_portions, hs, List.flatten_append, flatten_allPieces]

/-! ### Inside a buffer -/

/-- The buffer up to the position, filled with zeros where it is too short. -/
def cutTo (buffer : Bytes) (position : Nat) : Bytes :=
  buffer.take position ++ List.replicate (position - buffer.length) 0

@[simp] theorem length_cutTo (buffer : Bytes) (position : Nat) :
    (cutTo buffer position).length = position := by
  rw [cutTo, List.length_append, List.length_take, List.length_replicate]
  omega

theorem overwrite_eq (buffer : Bytes) (position : Nat) (b : Bytes) :
    overwrite buffer position b =
      cutTo buffer position ++ b ++ buffer.drop (position + b.length) := rfl

/-- What has just been written is what a writer that goes on finds in front of its position. -/
theorem cutTo_overwrite (buffer : Bytes) (position : Nat) (b : Bytes) :
    cutTo (overwrite buffer position b) (position + b.length) = cutTo buffer position ++ b := by
  have hfront : (cutTo buffer position ++ b).length = position + b.length := by
    rw [List.length_append, length_cutTo]
  have hlong : position + b.length - (overwrite buffer position b).length = 0 := by
    rw [overwrite_eq, List.length_append, hfront]
    omega
  rw [cutTo, hlong, List.replicate_zero, List.append_nil, overwrite_eq, ← hfront, List.take_left]

/-- Two portions one behind the other are written as one. -/
theorem overwrite_overwrite (buffer : Bytes) (position : Nat) (a b : Bytes) :
    overwrite (overwrite buffer position a) (position + a.length) b =
      overwrite buffer position (a ++ b) := by
  have hfront : (cutTo buffer position ++ a).length = position + a.length := by
    rw [List.length_append, length_cutTo]
  have hbehind : (overwrite buffer position a).drop (position + a.length + b.length) =
      buffer.drop (position + (a ++ b).length) := by
    rw [overwrite_eq, ← List.drop_drop, ← hfront, List.drop_left, hfront, List.drop_drop,
      List.length_append, Nat.add_assoc]
  rw [overwrite_eq, cutTo_overwrite, hbehind, overwrite_eq, List.append_assoc (cutTo _ _)]

theorem foldl_put_placed (buffer : Bytes) (position : Nat) {ps : List Bytes} (h : ps ≠ []) :
    ps.foldl Sink.put (⟨buffer, position⟩ : Placed) =
      ⟨overwrite buffer position ps.flatten, position + ps.flatten.length⟩ := by
  induction ps generalizing buffer position with
  | nil => exact absurd rfl h
  | cons p ps ih =>
    have hput : Sink.put (⟨buffer, position⟩ : Placed) p =
        ⟨overwrite buffer position p, position + p.length⟩ := rfl
    rw [List.foldl_cons, hput, List.flatten_cons]
    by_cases hps : ps = []
    · rw [hps, List.foldl_nil, List.flatten_nil, List.append_nil]
    · rw [ih _ _ hps, overwrite_overwrite, List.length_append, Nat.add_assoc]

/-- Values written into a buffer stand behind what it had up to the position and before what it had
beyond them. -/
theorem writeAll_placed (buffer : Bytes) (position : Nat) {vs : List Value} (h : vs ≠ []) :
    writeAll (⟨buffer, position⟩ : Placed) vs =
      ⟨overwrite buffer position (encodeAll vs), position + (encodeAll vs).length⟩ := by
  rw [writeAll_eq_foldl, foldl_put_placed _ _ (allPieces_ne_nil h), flatten_allPieces]

theorem overwrite_end (buffer b : Bytes) : overwrite buffer buffer.length b = buffer ++ b := by
  simp [overwrite]

/-! ## Writing and reading -/

/-- The bytes of a row of values are what a writer adds at the end of any buffer, what a reader
takes back whatever follows, what every other sink gets, and what stands at the position where a
writer started. -/
theorem writeAll_roundTrip {vs : List Value} (hne : vs ≠ []) (hvs : ∀ v ∈ vs, v.Writable) :
    (∀ buffer : Bytes, writeAll (⟨buffer, buffer.length⟩ : Placed) vs =
      ⟨buffer ++ encodeAll vs, (buffer ++ encodeAll vs).length⟩) ∧
    (∀ rest : Bytes, (Cursor.start (encodeAll vs ++ rest)).run (vs.map Value.kind) =
      (vs.map fun v => some v.readBack, ⟨(encodeAll vs).length, rest⟩)) ∧
    (∀ b : Bytes, writeAll (⟨b⟩ : Appended) vs = ⟨b ++ encodeAll vs⟩) ∧
    (∀ s : Suite, s.DigestsWhole → ∀ (h : HashType) (qs : List Bytes),
      s.digest h (writeAll (⟨qs⟩ : Portions) vs).list =
        s.digest h [qs.flatten ++ encodeAll vs]) ∧
    (∀ (buffer : Bytes) (position : Nat), writeAll (⟨buffer, position⟩ : Placed) vs =
      ⟨buffer.take position ++ List.replicate (position - buffer.length) 0 ++ encodeAll vs
        ++ buffer.drop (position + (encodeAll vs).length),
        position + (encodeAll vs).length⟩) := by
  refine ⟨fun buffer => ?_, fun rest => ?_, fun b => writeAll_appended b vs,
    fun s hs h qs => digest_writeAll hs h qs vs, fun buffer position => ?_⟩
  · rw [writeAll_placed _ _ hne, overwrite_end, List.length_append]
  · have hrun := Cursor.run_encodeAll hvs 0 rest
    rw [Nat.zero_add] at hrun
    exact hrun
  · exact writeAll_placed buffer position hne

/-- A value of every kind, with an integer that is zero, one that needs a zero byte in front, and
strings without bytes. -/
def mixed : List Value :=
  [.u8 7, .u32 0x01020304, .u64 1, .bool true, .string [], .string (ascii "ssh"), .bytes [],
    .bytes [9, 8], .mpint (.unsigned [0, 0]), .mpint (.unsigned [0, 0x80])]

/-- The values are written behind the end of a buffer, read back from there, and hashed by the suite
that computes. -/
theorem writeAll_roundTrip_mixed :
    mixed ≠ [] ∧ (∀ v ∈ mixed, v.Writable) ∧
    (writeAll (⟨[1, 2, 3], 5⟩ : Placed) mixed).position = 42 ∧
    (writeAll (⟨[1, 2, 3], 5⟩ : Placed) mixed).buffer =
      [1, 2, 3, 0, 0, 7, 1, 2, 3, 4, 0, 0, 0, 0, 0, 0, 0, 1, 1, 0, 0, 0, 0,
        0, 0, 0, 3, 115, 115, 104, 9, 8, 0, 0, 0, 0, 0, 0, 0, 2, 0, 0x80] ∧
    (Cursor.start (encodeAll mixed ++ [0xff])).run (mixed.map Value.kind) =
      ([some (.u8 7), some (.u32 0x01020304), some (.u64 1), some (.bool true), some (.string []),
        some (.string (ascii "ssh")), some (.bytes []), some (.bytes [9, 8]),
        some (.mpint (.unsigned [])), some (.mpint (.unsigned [0x80]))], ⟨37, [0xff]⟩) ∧
    Suite.standard.digest .sha256 (writeAll (⟨[]⟩ : Portions) mixed).list =
      Suite.standard.digest .sha256 [encodeAll mixed] := by
  have hne : mixed ≠ [] := List.cons_ne_nil _ _
  have hvs : ∀ v ∈ mixed, v.Writable := by decide
  obtain ⟨-, hread, -, hdigest, hplaced⟩ := writeAll_roundTrip hne hvs
  refine ⟨hne, hvs, ?_, ?_, ?_, hdigest _ Suite.digestsWhole_standard .sha256 []⟩
  · rw [hplaced]
    decide
  · rw [hplaced]
    decide
  · rw [hread]
    decide

end Wire

end SshCert

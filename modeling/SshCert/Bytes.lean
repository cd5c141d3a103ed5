/-
  Byte strings, the one carrier of text, wire data and key material.
  A text is the list of its bytes; `ascii` writes one down. Numbers are big-endian: `toNat`
  reads the unsigned value of any byte string and `ofNat` writes a fixed number of bytes,
  with `toNat_ofNat` and `ofNat_toNat` as the two ways round.
-/

namespace SshCert

/-- A byte string. -/
abbrev Bytes := List UInt8

/-- The bytes of a text whose characters lie below 256, one byte each. -/
def ascii (s : String) : Bytes := s.toList.map fun c => UInt8.ofNat c.toNat

namespace Bytes

/-! ## Big-endian numbers -/

/-- The unsigned value of the bytes, most significant byte first. -/
def toNat (b : Bytes) : Nat := b.foldl (fun v x => v * 256 + x.toNat) 0

/-- The `size` low bytes of `v`, most significant byte first. -/
def ofNat : (size v : Nat) → Bytes
  | 0, _ => []
  | size + 1, v => ofNat size (v / 256) ++ [UInt8.ofNat v]

/-- How many values `size` bytes can have. -/
def valueCount (size : Nat) : Nat := 1 <<< (8 * size)

/-- A 32-bit word as four bytes. -/
def ofUInt32 (v : UInt32) : Bytes := ofNat 4 v.toNat

/-- A 64-bit word as eight bytes. -/
def ofUInt64 (v : UInt64) : Bytes := ofNat 8 v.toNat

/-- The word held by the first four bytes. -/
def toUInt32 (b : Bytes) : UInt32 := UInt32.ofNat (toNat (b.take 4))

/-- The word held by the first eight bytes. -/
def toUInt64 (b : Bytes) : UInt64 := UInt64.ofNat (toNat (b.take 8))

/-- The bytes from the first one that is not zero: the shortest form of the unsigned value. -/
def dropZeros (b : Bytes) : Bytes := b.dropWhile (· == 0)

/-- The bytes aligned to the right in `size` bytes, with zeros in front. -/
def leftZeros (size : Nat) (b : Bytes) : Bytes := b.leftpad size 0

@[simp] theorem length_ofNat (size v : Nat) : (ofNat size v).length = size := by
  induction size generalizing v with
  | zero => rfl
  | succ size ih => simp [ofNat, ih]

theorem toNat_append_singleton (b : Bytes) (x : UInt8) :
    toNat (b ++ [x]) = toNat b * 256 + x.toNat := by
  simp [toNat]

theorem valueCount_succ (size : Nat) : valueCount (size + 1) = 256 * valueCount size := by
  simp only [valueCount, Nat.shiftLeft_eq, Nat.mul_add, Nat.pow_add]
  omega

theorem toNat_ofNat (size v : Nat) : toNat (ofNat size v) = v % valueCount size := by
  induction size generalizing v with
  | zero => simp [ofNat, toNat, valueCount, Nat.mod_one]
  | succ size ih =>
    rw [ofNat, toNat_append_singleton, ih, valueCount_succ, Nat.mod_mul, UInt8.toNat_ofNat']
    omega

theorem ofNat_toNat (b : Bytes) : ofNat b.length (toNat b) = b := by
  suffices h : ∀ r : Bytes, ofNat r.reverse.length (toNat r.reverse) = r.reverse by
    simpa using h b.reverse
  intro r
  induction r with
  | nil => rfl
  | cons x r ih =>
    have hdiv : (toNat r.reverse * 256 + x.toNat) / 256 = toNat r.reverse := by
      have := x.toNat_lt; omega
    have hmod : UInt8.ofNat (toNat r.reverse * 256 + x.toNat) = x := by
      apply UInt8.toNat_inj.mp
      rw [UInt8.toNat_ofNat']
      have := x.toNat_lt; omega
    rw [List.reverse_cons, List.length_append, List.length_singleton, ofNat,
      toNat_append_singleton, hdiv, ih, hmod]

/-! ## Parts -/

/-- At most `count` bytes starting at `offset`; no bytes when `offset` lies past the end. -/
def slice (b : Bytes) (offset count : Nat) : Bytes := (b.drop offset).take count

/-- What stands before and after the first occurrence of `pat`. -/
def splitAtFirst (pat : Bytes) : Bytes → Option (Bytes × Bytes)
  | [] => if pat.isEmpty then some ([], []) else none
  | x :: r =>
    if pat.isPrefixOf (x :: r) then some ([], (x :: r).drop pat.length)
    else (splitAtFirst pat r).map fun (before, after) => (x :: before, after)

/-- Whether `pat` stands somewhere in the bytes. -/
def occurs (pat b : Bytes) : Bool := (splitAtFirst pat b).isSome

/-- The bytes cut into pieces of `size` bytes, the last one possibly shorter. -/
def chunks (size : Nat) (b : Bytes) : List Bytes :=
  if _h : b = [] ∨ size = 0 then []
  else b.take size :: chunks size (b.drop size)
termination_by b.length
decreasing_by
  have hb := List.length_pos_iff.mpr (not_or.mp ‹¬(b = [] ∨ size = 0)›).1
  have hs := (not_or.mp ‹¬(b = [] ∨ size = 0)›).2
  rw [List.length_drop]
  omega

/-- The items one after another with `separator` between neighbours. -/
def join (separator : Bytes) (items : List Bytes) : Bytes := separator.intercalate items

/-- The bytes before the first zero byte. -/
def untilNul (b : Bytes) : Bytes := b.takeWhile (· != 0)

end Bytes

end SshCert

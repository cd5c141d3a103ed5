import SshCert.Bytes

/-
  Reading the binary types of the protocol from the front of a byte string.
  A reader gives its value and the bytes behind it, or `none` when fewer bytes are left than
  it needs; a failed read leaves its caller with the bytes it had.
-/

namespace SshCert.Wire

/-- Takes a value from the front of the bytes. -/
abbrev Reader (α : Type) := StateT Bytes Option α

/-- The next `count` bytes as they are. -/
def take (count : Nat) : Reader Bytes := fun b =>
  if count ≤ b.length then some (b.take count, b.drop count) else none

/-- One byte. -/
def u8 : Reader UInt8
  | [] => none
  | x :: r => some (x, r)

/-- A word of four bytes. -/
def u32 : Reader UInt32 := do return Bytes.toUInt32 (← take 4)

/-- A word of eight bytes. -/
def u64 : Reader UInt64 := do return Bytes.toUInt64 (← take 8)

/-- One byte of which every value but zero is true. -/
def bool : Reader Bool := do return (← u8) != 0

/-- Bytes behind their length, a word of four bytes. -/
def string : Reader Bytes := do take (← u32).toNat

/-- `count` strings, one after another. -/
def strings : (count : Nat) → Reader (List Bytes)
  | 0 => pure []
  | count + 1 => do
    let first ← string
    let others ← strings count
    return first :: others

theorem length_take {count : Nat} {b v rest : Bytes} (h : take count b = some (v, rest)) :
    v.length = count ∧ b.length = count + rest.length := by
  unfold take at h
  split at h
  · cases h
    constructor
    · rw [List.length_take]; omega
    · rw [List.length_drop]; omega
  · cases h

theorem u32_eq (b : Bytes) : u32 b = (take 4 b).bind fun p => some (Bytes.toUInt32 p.1, p.2) := rfl

theorem string_eq (b : Bytes) : string b = (u32 b).bind fun p => take p.1.toNat p.2 := rfl

theorem length_string {b v rest : Bytes} (h : string b = some (v, rest)) :
    b.length = 4 + v.length + rest.length := by
  rw [string_eq, u32_eq] at h
  cases hw : take 4 b with
  | none => simp [hw] at h
  | some p =>
    obtain ⟨w, r⟩ := p
    simp only [hw, Option.bind_some] at h
    have h4 := (length_take hw).2
    have hv := length_take h
    omega

/-- Strings up to the end of the bytes, of which nothing may be left over. -/
def allStrings (b : Bytes) : Option (List Bytes) :=
  if b = [] then some []
  else
    match _h : string b with
    | none => none
    | some (first, rest) => (allStrings rest).map (first :: ·)
termination_by b.length
decreasing_by
  have := length_string ‹string b = some (first, rest)›
  omega

end SshCert.Wire

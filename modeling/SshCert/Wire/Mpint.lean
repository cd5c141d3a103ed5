import SshCert.Wire.Reader

/-
  Multiple precision integers.
  On the wire such an integer is a string that holds its two's complement form, most
  significant byte first. In memory it is kept as bytes together with how they are to be
  understood: `unsigned` bytes are a non-negative number, `signed` bytes two's complement.
-/

namespace SshCert

/-- The bytes of an integer and how they are read. -/
inductive Mpint
  | unsigned (data : Bytes)
  | signed (data : Bytes)
  deriving DecidableEq, Repr

namespace Mpint

/-- The bytes without their reading. -/
def data : Mpint → Bytes
  | .unsigned d => d
  | .signed d => d

/-- Whether the first byte has its high bit set. -/
def isHigh : Bytes → Bool
  | [] => false
  | x :: _ => 0x80 ≤ x

/-- The two's complement value of the bytes. -/
def twosComplement (b : Bytes) : Int :=
  if isHigh b then (Bytes.toNat b : Int) - Bytes.valueCount b.length else Bytes.toNat b

/-- The integer that is meant. -/
def toInt : Mpint → Int
  | .unsigned d => Bytes.toNat d
  | .signed d => twosComplement d

/-- The bytes that are written: without leading zeros, and with a single one in front of an
unsigned number whose high bit is set. -/
def payload : Mpint → Bytes
  | .unsigned d => if isHigh (Bytes.dropZeros d) then 0 :: Bytes.dropZeros d else Bytes.dropZeros d
  | .signed d => Bytes.dropZeros d

/-- The payload as it is written: a zero in front of a high bit is a portion of its own. -/
def portions : Mpint → List Bytes
  | .unsigned d =>
    if isHigh (Bytes.dropZeros d) then [[0], Bytes.dropZeros d] else [Bytes.dropZeros d]
  | .signed d => [Bytes.dropZeros d]

@[simp] theorem flatten_portions (i : Mpint) : i.portions.flatten = i.payload := by
  cases i with
  | unsigned d =>
    rw [portions, payload]
    split
    · simp
    · simp
  | signed d => simp [portions, payload]

/-- The integer that a payload holds: negative ones keep their bytes, others lose leading zeros. -/
def ofPayload (b : Bytes) : Mpint :=
  if isHigh b then .signed b else .unsigned (Bytes.dropZeros b)

/-- Reads an integer. -/
def read : Wire.Reader Mpint := do return ofPayload (← Wire.string)

end Mpint

end SshCert

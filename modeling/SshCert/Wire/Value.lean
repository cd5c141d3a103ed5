import SshCert.Wire.Mpint

/-
  Typed values of the wire: what each is written as and how each kind is read.
  `encode` gives the bytes of a value and `pieces` the portions in which a sink gets them.
-/

namespace SshCert.Wire

/-- A value that can be written. -/
inductive Value
  | u8 (v : UInt8)
  | u32 (v : UInt32)
  | u64 (v : UInt64)
  | bool (v : Bool)
  | string (b : Bytes)
  | mpint (i : Mpint)
  | bytes (b : Bytes)
  deriving DecidableEq, Repr

/-- What is to be read. -/
inductive Kind
  | u8
  | u32
  | u64
  | bool
  | string
  | mpint
  | bytes (count : Nat)
  deriving DecidableEq, Repr

/-- The length in front of a string; it wraps at 2³². -/
def lengthWord (b : Bytes) : Bytes := Bytes.ofUInt32 (UInt32.ofNat b.length)

/-- The portions of a value, in order. -/
def Value.pieces : Value → List Bytes
  | .u8 v => [[v]]
  | .u32 v => [Bytes.ofUInt32 v]
  | .u64 v => [Bytes.ofUInt64 v]
  | .bool v => [[if v then 1 else 0]]
  | .string b => [lengthWord b, b]
  | .mpint i => lengthWord i.payload :: i.portions
  | .bytes b => [b]

/-- The bytes of a value. -/
def Value.encode (v : Value) : Bytes := v.pieces.flatten

/-- The bytes of values one after another. -/
def encodeAll (vs : List Value) : Bytes := vs.flatMap Value.encode

/-- The kind that reads a value back. -/
def Value.kind : Value → Kind
  | .u8 _ => .u8
  | .u32 _ => .u32
  | .u64 _ => .u64
  | .bool _ => .bool
  | .string _ => .string
  | .mpint _ => .mpint
  | .bytes b => .bytes b.length

/-- Reads a value of the kind. -/
def Kind.read : Kind → Reader Value
  | .u8 => Value.u8 <$> Wire.u8
  | .u32 => Value.u32 <$> Wire.u32
  | .u64 => Value.u64 <$> Wire.u64
  | .bool => Value.bool <$> Wire.bool
  | .string => Value.string <$> Wire.string
  | .mpint => Value.mpint <$> Mpint.read
  | .bytes count => Value.bytes <$> Wire.take count

/-- Bytes written with their length in front. -/
def encodeString (b : Bytes) : Bytes := (Value.string b).encode

/-- Strings written one after another. -/
def encodeStrings (bs : List Bytes) : Bytes := bs.flatMap encodeString

end SshCert.Wire

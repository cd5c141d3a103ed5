import SshCert.Bytes

/-
  Writing DER.
  Every element is a tag, the length of its content in as few bytes as possible, and the
  content.
-/

namespace SshCert.Der

/-! ## Tags -/

/-- The kinds of elements. -/
inductive Tag
  | integer
  | bitString
  | octetString
  | null
  | oid
  | sequence
  deriving DecidableEq, Repr

/-- The byte of a tag. -/
def Tag.byte : Tag → UInt8
  | .integer => 0x02
  | .bitString => 0x03
  | .octetString => 0x04
  | .null => 0x05
  | .oid => 0x06
  | .sequence => 0x30

/-! ## Elements -/

/-- The bytes of a number without leading zeros. -/
def minimalBytes (n : Nat) : Bytes :=
  if n = 0 then [] else minimalBytes (n / 256) ++ [UInt8.ofNat n]

/-- The length of a content: itself below 128, else its bytes behind their count. -/
def length (n : Nat) : Bytes :=
  if n < 128 then [UInt8.ofNat n]
  else UInt8.ofNat (128 + (minimalBytes n).length) :: minimalBytes n

/-- An element. -/
def element (tag : Tag) (content : Bytes) : Bytes := tag.byte :: length content.length ++ content

/-- Elements as the content of a sequence. -/
def sequence (elements : List Bytes) : Bytes := element .sequence elements.flatten

/-- Null. -/
def null : Bytes := element .null []

/-- The content of the integer with the unsigned bytes: as few bytes as possible, with a zero in
front of a high bit. -/
def integerContent (b : Bytes) : Bytes :=
  match Bytes.dropZeros b with
  | [] => [0]
  | x :: r => if 0x80 ≤ x then 0 :: x :: r else x :: r

/-- The non-negative integer with the unsigned bytes. -/
def integer (b : Bytes) : Bytes := element .integer (integerContent b)

/-- Bytes as a bit string without unused bits. -/
def bitString (b : Bytes) : Bytes := element .bitString (0 :: b)

/-- Bytes. -/
def octetString (b : Bytes) : Bytes := element .octetString b

/-- An object identifier by its encoded arcs. -/
def oid (arcs : Bytes) : Bytes := element .oid arcs

end SshCert.Der

import SshCert.Bytes

/-
  Numbers as text: decimal numerals and bytes as two hexadecimal digits each.
-/

namespace SshCert.Text

/-- A number in decimal. -/
def decimal (n : Nat) : Bytes := (Nat.toDigits 10 n).map fun c => UInt8.ofNat c.toNat

/-- An integer in decimal, with a minus sign in front of a negative one. -/
def signedDecimal (i : Int) : Bytes :=
  if i < 0 then 0x2d :: decimal i.natAbs else decimal i.natAbs

/-- The lower case hexadecimal digit of a value below 16. -/
def hexDigit (n : Nat) : UInt8 := UInt8.ofNat (if n < 10 then n + 48 else n + 87)

/-- A byte as two hexadecimal digits. -/
def hexByte (b : UInt8) : Bytes := [hexDigit (b.toNat / 16), hexDigit (b.toNat % 16)]

/-- The bytes as hexadecimal pairs with colons between them. -/
def colonHex (b : Bytes) : Bytes := Bytes.join (ascii ":") (b.map hexByte)

end SshCert.Text

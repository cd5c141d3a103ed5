import SshCert.Bytes

/-
  Tokens of a line: blanks around a text and the first word of it.
-/

namespace SshCert.Text

/-- Whether the character is a space, tab, line feed or carriage return. -/
def isBlank (c : UInt8) : Bool := c == 0x20 || c == 0x09 || c == 0x0a || c == 0x0d

/-- Whether the character ends a token: a space or tab. -/
def isSeparator (c : UInt8) : Bool := c == 0x20 || c == 0x09

/-- The text without the blanks at its end. -/
def trimEnd (s : Bytes) : Bytes := (s.reverse.dropWhile isBlank).reverse

/-- The text without the blanks around it. -/
def trim (s : Bytes) : Bytes := trimEnd (s.dropWhile isBlank)

/-- The first token of the trimmed text and what follows it. -/
def token (s : Bytes) : Bytes × Bytes := (trim s).span (!isSeparator ·)

end SshCert.Text

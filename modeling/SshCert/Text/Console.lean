import SshCert.Text.Number

/-
  Printing text, bytes and numbers to a console whose fill character is remembered.
  A number is aligned to the right in its field with the current fill character, at first a
  space. Printing at least one byte in hexadecimal leaves the fill character at `0`.
-/

namespace SshCert.Text

/-- One thing to print. -/
inductive Printed
  | text (t : Bytes)
  | bytes (b : Bytes)
  | number (n : Int) (width : Nat)
  deriving DecidableEq, Repr

/-- The output so far and the character that fills short fields. -/
structure Console where
  output : Bytes := []
  fill : UInt8 := 0x20
  deriving DecidableEq, Repr

/-- Appends one item to the output. -/
def Console.print (c : Console) : Printed → Console
  | .text t => { c with output := c.output ++ t }
  | .bytes b =>
    { output := c.output ++ colonHex b, fill := if b.isEmpty then c.fill else 0x30 }
  | .number n width =>
    { c with output := c.output ++ (signedDecimal n).leftpad width c.fill }

/-- All items printed one after another on a fresh console. -/
def printAll (items : List Printed) : Bytes := (items.foldl Console.print {}).output

end SshCert.Text

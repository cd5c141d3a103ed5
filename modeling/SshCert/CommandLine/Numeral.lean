import SshCert.Bytes

/-
  Numbers in the arguments of a command line.
  An argument is read from its front: white space, a sign, decimal digits. What has been read is
  stored even if the reading fails, because a number does not fit or because something other
  than white space follows.
-/

namespace SshCert.CommandLine

/-- Whether the character is white space: a space or one of tab to carriage return. -/
def isSpace (c : UInt8) : Bool := c == 0x20 || (0x09 ≤ c && c ≤ 0x0d)

/-- Whether the character is a decimal digit. -/
def isDigit (c : UInt8) : Bool := 0x30 ≤ c && c ≤ 0x39

/-- The number that decimal digits stand for. -/
def digitsValue (s : Bytes) : Nat := s.foldl (fun v c => 10 * v + (c.toNat - 0x30)) 0

/-- A sign and digits, and what follows them. -/
structure Numeral where
  negative : Bool
  digits : Bytes
  rest : Bytes
  deriving DecidableEq, Repr

/-- The sign and the digits at the front of a text; both may be missing. -/
def Numeral.ofBytes (s : Bytes) : Numeral :=
  let (negative, r) :=
    match s with
    | 0x2d :: r => (true, r)
    | 0x2b :: r => (false, r)
    | _ => (false, s)
  ⟨negative, r.takeWhile isDigit, r.dropWhile isDigit⟩

/-- What reading an argument gives: the value to store, if any, and whether the argument as a
whole is one. -/
structure Reading (α : Type) where
  stored? : Option α
  complete : Bool
  deriving DecidableEq, Repr

/-- The value of a complete reading. -/
def Reading.value? {α : Type} (r : Reading α) : Option α :=
  if r.complete then r.stored? else none

/-- Reads a number; `fit` makes the value from sign and magnitude and tells whether it fits. -/
def readNumber {α : Type} (fit : Bool → Nat → α × Bool) (arg : Bytes) : Reading α :=
  let s := arg.dropWhile isSpace
  if s.isEmpty then ⟨none, false⟩
  else
    let n := Numeral.ofBytes s
    let (v, fits) := fit n.negative (digitsValue n.digits)
    ⟨some v, !n.digits.isEmpty && fits && n.rest.all isSpace⟩

/-- The 64-bit word with the magnitude, or with its two's complement for a negative number; the
greatest word if the magnitude does not fit. -/
def fitWord (negative : Bool) (magnitude : Nat) : UInt64 × Bool :=
  if magnitude < UInt64.size then
    (if negative then -(UInt64.ofNat magnitude) else UInt64.ofNat magnitude, true)
  else (0xffffffffffffffff, false)

/-- The 32-bit integer, or the nearest one if the number does not fit. -/
def fitInteger (negative : Bool) (magnitude : Nat) : Int32 × Bool :=
  let v : Int := if negative then -magnitude else magnitude
  if v < Int32.minValue.toInt then (Int32.minValue, false)
  else if Int32.maxValue.toInt < v then (Int32.maxValue, false)
  else (Int32.ofInt v, true)

/-- Reads a 64-bit word. -/
def readWord : Bytes → Reading UInt64 := readNumber fitWord

/-- Reads a 32-bit integer. -/
def readInteger : Bytes → Reading Int32 := readNumber fitInteger

end SshCert.CommandLine

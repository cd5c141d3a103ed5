import SshCert.Text.Token

/-
  Base64 text over the standard alphabet.
  `encode` pads the last group with `=` and `encodeUnpadded` leaves the padding out. `decode`
  takes both forms and reports failure as `none`; no text decodes to the empty byte string.
  The scanner under it works character by character: vertical tab and form feed are passed
  over, padding is taken as long as unfinished bits are left and all of them are zero.
-/

namespace SshCert.Base64

/-- The padding character `=`. -/
def padding : UInt8 := 0x3d

/-! ## Characters -/

/-- The character of a six bit value: `A` to `Z`, `a` to `z`, `0` to `9`, `+`, `/`. -/
def character (n : Nat) : UInt8 :=
  if n < 26 then UInt8.ofNat (n + 65)
  else if n < 52 then UInt8.ofNat (n + 71)
  else if n < 62 then UInt8.ofNat (n - 4)
  else if n = 62 then 0x2b
  else 0x2f

/-- The six bit value of an alphabet character. -/
def value? (c : UInt8) : Option Nat :=
  if 65 ≤ c ∧ c ≤ 90 then some (c.toNat - 65)
  else if 97 ≤ c ∧ c ≤ 122 then some (c.toNat - 71)
  else if 48 ≤ c ∧ c ≤ 57 then some (c.toNat + 4)
  else if c = 0x2b then some 62
  else if c = 0x2f then some 63
  else none

/-! ## Encoding -/

/-- Three bytes give four characters; the last group is padded to four. -/
def encode : Bytes → Bytes
  | a :: b :: c :: r =>
    character (a.toNat / 4)
      :: character (a.toNat % 4 * 16 + b.toNat / 16)
      :: character (b.toNat % 16 * 4 + c.toNat / 64)
      :: character (c.toNat % 64)
      :: encode r
  | [a, b] =>
    [character (a.toNat / 4), character (a.toNat % 4 * 16 + b.toNat / 16),
      character (b.toNat % 16 * 4), padding]
  | [a] => [character (a.toNat / 4), character (a.toNat % 4 * 16), padding, padding]
  | [] => []

/-- The encoding without its padding. -/
def encodeUnpadded (b : Bytes) : Bytes := (encode b).takeWhile (· != padding)

/-! ## Decoding -/

/-- What a scan holds between two characters. -/
structure Scan where
  /-- How many bits of the unfinished byte have been read: 0, 2, 4 or 6. -/
  bits : Nat
  /-- Their value. -/
  pending : Nat
  /-- How many padding characters have been read. -/
  padded : Nat
  deriving DecidableEq, Repr

/-- Nothing read yet. -/
def Scan.start : Scan := ⟨0, 0, 0⟩

/-- Characters that are passed over: vertical tab and form feed. -/
def isSkipped (c : UInt8) : Bool := c == 0x0b || c == 0x0c

/-- The bytes of the remaining text. It must end between bytes and hold no data after padding. -/
def scan (s : Scan) : Bytes → Option Bytes
  | [] => if s.bits = 0 then some [] else none
  | c :: r =>
    if c = padding then
      if s.bits ≠ 0 ∧ s.padded ≤ 2 ∧ s.pending = 0 then
        scan ⟨s.bits - 2, 0, s.padded + 1⟩ r
      else none
    else if isSkipped c then scan s r
    else
      match value? c with
      | none => none
      | some v =>
        if s.padded ≠ 0 then none
        else if s.bits = 0 then scan ⟨6, v, 0⟩ r
        else
          let word := s.pending * 64 + v
          let unit := 1 <<< (s.bits - 2)
          (scan ⟨s.bits - 2, word % unit, 0⟩ r).map (UInt8.ofNat (word / unit) :: ·)

/-- The text brought to a multiple of four characters. A text that already has padding, or one
character too many, cannot be completed. -/
def complete? (s : Bytes) : Option Bytes :=
  match s.length % 4 with
  | 0 => some s
  | 1 => none
  | k => if s.contains padding then none else some (s ++ List.replicate (4 - k) padding)

/-- The bytes that a padded or unpadded text stands for, if it is one and stands for any. -/
def decode (s : Bytes) : Option Bytes :=
  if s.isEmpty || s.any Text.isBlank then none
  else
    match (complete? s).bind (scan .start) with
    | some [] => none
    | r => r

end SshCert.Base64

import SshCert.Wire.Value

/-
  A place in a byte string from which values are read one by one.
  A step that fails does not move, so later steps go on from the same place.
-/

namespace SshCert.Wire

/-- How many bytes have been read and the bytes that have not. -/
structure Cursor where
  used : Nat
  rest : Bytes
  deriving DecidableEq, Repr

namespace Cursor

/-- The front of the bytes. -/
def start (b : Bytes) : Cursor := ⟨0, b⟩

/-- How many bytes have not been read. -/
def left (c : Cursor) : Nat := c.rest.length

/-- Reads a value of the kind and moves behind it, or stays. -/
def step (c : Cursor) (k : Kind) : Option Value × Cursor :=
  match k.read c.rest with
  | none => (none, c)
  | some (v, rest) => (some v, ⟨c.used + (c.rest.length - rest.length), rest⟩)

/-- Every step's answer and the place after the last one. -/
def run (c : Cursor) : List Kind → List (Option Value) × Cursor
  | [] => ([], c)
  | k :: ks =>
    let (v, next) := c.step k
    let (vs, last) := next.run ks
    (v :: vs, last)

end Cursor

end SshCert.Wire

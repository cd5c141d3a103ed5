import SshCert.Wire.Value

/-
  Where written bytes go: the end of a byte string, a list of portions still to be hashed, or
  a place inside a buffer that grows as needed.
-/

namespace SshCert.Wire

/-- Takes bytes one portion after another. -/
class Sink (σ : Type) where
  put : σ → Bytes → σ

/-- Puts the portions of a value into a sink. -/
def write {σ : Type} [Sink σ] (s : σ) (v : Value) : σ := v.pieces.foldl Sink.put s

/-- Puts values into a sink one after another. -/
def writeAll {σ : Type} [Sink σ] (s : σ) (vs : List Value) : σ := vs.foldl write s

/-- A byte string that grows at its end. -/
structure Appended where
  bytes : Bytes
  deriving DecidableEq, Repr

instance : Sink Appended where
  put s b := ⟨s.bytes ++ b⟩

/-- The portions of a message, kept apart until the message is hashed. -/
structure Portions where
  list : List Bytes
  deriving DecidableEq, Repr

instance : Sink Portions where
  put s b := ⟨s.list ++ [b]⟩

/-- A buffer and the position where the next byte goes. -/
structure Placed where
  buffer : Bytes
  position : Nat
  deriving DecidableEq, Repr

/-- The buffer with `b` at `position`: cut or filled with zeros up to it, then `b`, then what the
buffer had behind. -/
def overwrite (buffer : Bytes) (position : Nat) (b : Bytes) : Bytes :=
  buffer.take position ++ List.replicate (position - buffer.length) 0 ++ b
    ++ buffer.drop (position + b.length)

instance : Sink Placed where
  put s b := ⟨overwrite s.buffer s.position b, s.position + b.length⟩

end SshCert.Wire

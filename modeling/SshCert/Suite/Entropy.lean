import SshCert.Bytes

/-
  Filling a buffer from a source of random bytes that may give fewer than it is asked for.
  The source is asked for exactly the bytes that are missing; an interrupted call is made
  again, any other failure and an empty answer end the filling.
-/

namespace SshCert.Entropy

/-- What the source answers to one call. -/
inductive Answer
  | interrupted
  | failed
  /-- The bytes it has; it never gives more than it is asked for. -/
  | delivered (piece : Bytes)
  deriving DecidableEq, Repr

/-- A filled buffer, or how far the filling came. -/
structure Filling where
  complete : Bool
  /-- How many bytes each call asked for. -/
  asked : List Nat
  /-- The bytes that were delivered. -/
  bytes : Bytes
  deriving DecidableEq, Repr

namespace Filling

/-- The buffer of the given size: what was delivered, and zeros where nothing was written. -/
def buffer (f : Filling) (size : Nat) : Bytes :=
  f.bytes ++ List.replicate (size - f.bytes.length) 0

/-- Puts a call in front that asked for `missing` bytes and got `piece`. -/
def after (f : Filling) (missing : Nat) (piece : Bytes) : Filling :=
  { f with asked := missing :: f.asked, bytes := piece ++ f.bytes }

end Filling

/-- Asks for the missing bytes until there are none; behind the last answer the source is empty. -/
def fill (missing : Nat) : List Answer → Filling
  | [] => if missing = 0 then ⟨true, [], []⟩ else ⟨false, [missing], []⟩
  | a :: r =>
    if missing = 0 then ⟨true, [], []⟩
    else
      match a with
      | .interrupted => (fill missing r).after missing []
      | .failed => ⟨false, [missing], []⟩
      | .delivered piece =>
        let got := piece.take missing
        if got.isEmpty then ⟨false, [missing], []⟩
        else (fill (missing - got.length) r).after missing got

end SshCert.Entropy

import SshCert.Digest.Padding

/-
  SHA-1.
-/

namespace SshCert.Digest.Sha1

/-- A word of the function. -/
abbrev Word := BitVec (8 * 4)

/-- The five words that are carried from block to block. -/
structure State where
  a : Word
  b : Word
  c : Word
  d : Word
  e : Word
  deriving DecidableEq, Repr

/-- The state in front of the first block. -/
def start : State := ⟨0x67452301, 0xefcdab89, 0x98badcfe, 0x10325476, 0xc3d2e1f0⟩

/-- The sixteen words of a block extended to eighty: each new word combines four earlier ones. -/
def schedule (block : List Word) : Array Word :=
  (List.range 64).foldl
    (fun ws i =>
      ws.push ((ws.getD (i + 13) 0 ^^^ ws.getD (i + 8) 0 ^^^ ws.getD (i + 2) 0
        ^^^ ws.getD i 0).rotateLeft 1))
    block.toArray

/-- How three words are mixed in a round, and the round's constant. -/
def mix (t : Nat) (x y z : Word) : Word × Word :=
  if t < 20 then ((x &&& y) ||| (~~~x &&& z), 0x5a827999)
  else if t < 40 then (x ^^^ y ^^^ z, 0x6ed9eba1)
  else if t < 60 then ((x &&& y) ||| (x &&& z) ||| (y &&& z), 0x8f1bbcdc)
  else (x ^^^ y ^^^ z, 0xca62c1d6)

/-- One round, with its number and word. -/
def round (s : State) (step : Word × Nat) : State :=
  let (f, k) := mix step.2 s.b s.c s.d
  ⟨s.a.rotateLeft 5 + f + s.e + k + step.1, s.a, s.b.rotateLeft 30, s.c, s.d⟩

/-- The state behind a block. -/
def compress (s : State) (block : List Word) : State :=
  let r := (schedule block).toList.zipIdx.foldl round s
  ⟨s.a + r.a, s.b + r.b, s.c + r.c, s.d + r.d, s.e + r.e⟩

/-- The digest of a message, twenty bytes. -/
def digest (m : Bytes) : Bytes :=
  let s := (blocks 4 m).foldl compress start
  [s.a, s.b, s.c, s.d, s.e].flatMap wordBytes

end SshCert.Digest.Sha1

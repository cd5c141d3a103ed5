import SshCert.Bytes

/-
  What the hash functions share: the padding of a message and its words.
  A message is followed by a one bit, zeros and its length in bits, so that it fills whole
  blocks of sixteen words.
-/

namespace SshCert.Digest

/-- The message filled up to whole blocks of sixteen words of `wordSize` bytes; its length in bits
takes the last two words. -/
def pad (wordSize : Nat) (m : Bytes) : Bytes :=
  let block := 16 * wordSize
  let tail := 1 + 2 * wordSize
  let zeros := (block - (m.length + tail) % block) % block
  m ++ 0x80 :: List.replicate zeros 0 ++ Bytes.ofNat (2 * wordSize) (8 * m.length)

/-- The bytes as big-endian words of `wordSize` bytes. -/
def words (wordSize : Nat) (b : Bytes) : List (BitVec (8 * wordSize)) :=
  (Bytes.chunks wordSize b).map fun c => BitVec.ofNat (8 * wordSize) (Bytes.toNat c)

/-- The blocks of a message, each as its sixteen words. -/
def blocks (wordSize : Nat) (m : Bytes) : List (List (BitVec (8 * wordSize))) :=
  (Bytes.chunks (16 * wordSize) (pad wordSize m)).map (words wordSize)

/-- A word as bytes. -/
def wordBytes {wordSize : Nat} (x : BitVec (8 * wordSize)) : Bytes := Bytes.ofNat wordSize x.toNat

end SshCert.Digest

import SshCert.Digest.Padding

/-
  The SHA-2 functions, for words of any size.
  A `Shape` fixes the size of words, the number of rounds and the rotations. The constants are
  the leading fraction bits of roots of the primes, so both sizes of words take them from the
  same computation.
-/

namespace SshCert.Digest.Sha2

/-! ## Constants -/

/-- The first eighty primes. -/
def primes : List Nat :=
  [2, 3, 5, 7, 11, 13, 17, 19, 23, 29, 31, 37, 41, 43, 47, 53, 59, 61, 67, 71, 73, 79, 83, 89, 97,
   101, 103, 107, 109, 113, 127, 131, 137, 139, 149, 151, 157, 163, 167, 173, 179, 181, 191, 193,
   197, 199, 211, 223, 227, 229, 233, 239, 241, 251, 257, 263, 269, 271, 277, 281, 283, 293, 307,
   311, 313, 317, 331, 337, 347, 349, 353, 359, 367, 373, 379, 383, 389, 397, 401, 409]

/-- The greatest number below `root + 2 ^ bits` whose `degree`-th power is at most `n`, if `root` is
a multiple of `2 ^ bits` with that property. -/
def rootFrom (degree n : Nat) : (bits root : Nat) → Nat
  | 0, root => root
  | bits + 1, root =>
    let next := root + (1 <<< bits)
    rootFrom degree n bits (if Nat.pow next degree ≤ n then next else root)

/-- The first `width` bits behind the point of the `degree`-th root of `n`, for `n` below 512. -/
def rootFraction (degree width n : Nat) : Nat :=
  rootFrom degree (n <<< (degree * width)) (width + 9) 0 % (1 <<< width)

/-! ## Shapes -/

/-- What sets the functions apart. -/
structure Shape where
  /-- The size of a word in bytes. -/
  wordSize : Nat
  rounds : Nat
  /-- Rotations of the first working word. -/
  sumA : Nat × Nat × Nat
  /-- Rotations of the fifth working word. -/
  sumE : Nat × Nat × Nat
  /-- Two rotations and a shift of the schedule word fifteen places back. -/
  far : Nat × Nat × Nat
  /-- Two rotations and a shift of the schedule word two places back. -/
  near : Nat × Nat × Nat

/-- Words of 32 bits. -/
def shape32 : Shape := ⟨4, 64, (2, 13, 22), (6, 11, 25), (7, 18, 3), (17, 19, 10)⟩

/-- Words of 64 bits. -/
def shape64 : Shape := ⟨8, 80, (28, 34, 39), (14, 18, 41), (1, 8, 7), (19, 61, 6)⟩

/-- A word of a shape. -/
abbrev Shape.Word (s : Shape) := BitVec (8 * s.wordSize)

/-- The constants of the rounds: from the cube roots of the primes. -/
def Shape.constants (s : Shape) : List s.Word :=
  (primes.take s.rounds).map fun p => BitVec.ofNat _ (rootFraction 3 (8 * s.wordSize) p)

/-- Three rotations of a word, combined. -/
def rotations {w : Nat} (x : BitVec w) (amounts : Nat × Nat × Nat) : BitVec w :=
  x.rotateRight amounts.1 ^^^ x.rotateRight amounts.2.1 ^^^ x.rotateRight amounts.2.2

/-- Two rotations and a shift of a word, combined. -/
def rotationsAndShift {w : Nat} (x : BitVec w) (amounts : Nat × Nat × Nat) : BitVec w :=
  x.rotateRight amounts.1 ^^^ x.rotateRight amounts.2.1 ^^^ x >>> amounts.2.2

/-- The eight words that are carried from block to block. -/
structure State (w : Nat) where
  a : BitVec w
  b : BitVec w
  c : BitVec w
  d : BitVec w
  e : BitVec w
  f : BitVec w
  g : BitVec w
  h : BitVec w
  deriving DecidableEq, Repr

/-- The words of the state in order. -/
def State.toList {w : Nat} (s : State w) : List (BitVec w) :=
  [s.a, s.b, s.c, s.d, s.e, s.f, s.g, s.h]

/-- A state added word by word. -/
def State.add {w : Nat} (s t : State w) : State w :=
  ⟨s.a + t.a, s.b + t.b, s.c + t.c, s.d + t.d, s.e + t.e, s.f + t.f, s.g + t.g, s.h + t.h⟩

/-- The start state: from the square roots of eight primes, leaving out the first `skip`. -/
def Shape.start (s : Shape) (skip : Nat) : State (8 * s.wordSize) :=
  let word (i : Nat) : s.Word :=
    BitVec.ofNat _ (rootFraction 2 (8 * s.wordSize) (primes.getD (skip + i) 0))
  ⟨word 0, word 1, word 2, word 3, word 4, word 5, word 6, word 7⟩

/-! ## Rounds -/

/-- The sixteen words of a block extended to one word for each round. -/
def Shape.schedule (s : Shape) (block : List s.Word) : Array s.Word :=
  (List.range (s.rounds - 16)).foldl
    (fun ws i =>
      ws.push (rotationsAndShift (ws.getD (i + 14) 0) s.near + ws.getD (i + 9) 0
        + rotationsAndShift (ws.getD (i + 1) 0) s.far + ws.getD i 0))
    block.toArray

/-- One round, with its word and constant. -/
def Shape.round (s : Shape) (r : State (8 * s.wordSize)) (step : s.Word × s.Word) :
    State (8 * s.wordSize) :=
  let choice := (r.e &&& r.f) ^^^ (~~~r.e &&& r.g)
  let majority := (r.a &&& r.b) ^^^ (r.a &&& r.c) ^^^ (r.b &&& r.c)
  let t1 := r.h + rotations r.e s.sumE + choice + step.2 + step.1
  let t2 := rotations r.a s.sumA + majority
  ⟨t1 + t2, r.a, r.b, r.c, r.d + t1, r.e, r.f, r.g⟩

/-- The state behind a block. -/
def Shape.compress (s : Shape) (constants : List s.Word) (r : State (8 * s.wordSize))
    (block : List s.Word) : State (8 * s.wordSize) :=
  r.add (((s.schedule block).toList.zip constants).foldl s.round r)

/-- The digest of a message: the first `size` bytes of the last state. -/
def Shape.digest (s : Shape) (constants : List s.Word) (start : State (8 * s.wordSize)) (size : Nat)
    (m : Bytes) : Bytes :=
  (((blocks s.wordSize m).foldl (s.compress constants) start).toList.flatMap wordBytes).take size

/-! ## The functions -/

/-- The round constants of 32 bits. -/
def constants32 : List shape32.Word := shape32.constants

/-- The round constants of 64 bits. -/
def constants64 : List shape64.Word := shape64.constants

/-- The start state of SHA-256. -/
def start256 : State (8 * shape32.wordSize) := shape32.start 0

/-- The start state of SHA-384. -/
def start384 : State (8 * shape64.wordSize) := shape64.start 8

/-- The start state of SHA-512. -/
def start512 : State (8 * shape64.wordSize) := shape64.start 0

/-- SHA-256. -/
def sha256 (m : Bytes) : Bytes := shape32.digest constants32 start256 32 m

/-- SHA-384. -/
def sha384 (m : Bytes) : Bytes := shape64.digest constants64 start384 48 m

/-- SHA-512. -/
def sha512 (m : Bytes) : Bytes := shape64.digest constants64 start512 64 m

end SshCert.Digest.Sha2

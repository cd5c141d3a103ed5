import SshCert.Digest.Sha2
import SshCert.Primitive.Modular

/-
  Ed25519 over SHA-512.
  The group is the twisted Edwards curve -x² + y² = 1 + dx²y² modulo 2²⁵⁵ - 19, in extended
  coordinates. Numbers are little-endian. Verification asks for the exact equation, without the
  cofactor, and refuses encodings that are not reduced.
-/

namespace SshCert.Primitive.Ed25519

/-! ## The field and the curve -/

/-- The prime of the field. -/
def p : Nat := (1 <<< 255) - 19

/-- The order of the base point. -/
def order : Nat := (1 <<< 252) + 27742317777372353535851937790883648493

/-- The constant of the curve. -/
def d : Nat := (p - 121665) * inverseMod p 121666 % p

/-- A square root of minus one. -/
def sqrtMinusOne : Nat := powMod p 2 ((p - 1) / 4)

/-- The unsigned value of little-endian bytes. -/
def number (b : Bytes) : Nat := Bytes.toNat b.reverse

/-- A number as `size` little-endian bytes. -/
def bytes (size v : Nat) : Bytes := (Bytes.ofNat size v).reverse

/-- A point: `x / z` and `y / z` are its coordinates and `t / z` is their product. -/
structure Point where
  x : Nat
  y : Nat
  z : Nat
  t : Nat
  deriving DecidableEq, Repr

namespace Point

/-- The neutral element. -/
def neutral : Point := ⟨0, 1, 1, 0⟩

/-- The point with the coordinates. -/
def affine (x y : Nat) : Point := ⟨x, y, 1, x * y % p⟩

/-- The sum of two points. -/
def add (a b : Point) : Point :=
  let u := subMod p a.y a.x * subMod p b.y b.x % p
  let v := (a.y + a.x) * (b.y + b.x) % p
  let w := 2 * a.t * b.t % p * d % p
  let s := 2 * a.z * b.z % p
  let e := subMod p v u
  let f := subMod p s w
  let g := s + w
  let h := v + u
  ⟨e * f % p, g * h % p, f * g % p, e * h % p⟩

/-- A multiple of a point, by doubling and adding. -/
def mul (k : Nat) (a : Point) : Point :=
  if _h : k = 0 then neutral
  else
    let half := mul (k / 2) a
    let twice := add half half
    if k % 2 = 0 then twice else add twice a
termination_by k
decreasing_by omega

/-- Whether two points are the same. -/
def same (a b : Point) : Bool :=
  a.x * b.z % p == b.x * a.z % p && a.y * b.z % p == b.y * a.z % p

/-- The number of the second coordinate, with the lowest bit of the first on top of it. -/
def encode (a : Point) : Bytes :=
  let w := inverseMod p a.z
  bytes 32 (a.y * w % p + a.x * w % p % 2 * (1 <<< 255))

/-- A first coordinate that belongs to a second one. -/
def xOf? (y : Nat) : Option Nat :=
  let u := subMod p (y * y) 1
  let v := (d * (y * y % p) + 1) % p
  let v3 := v * v % p * v % p
  let x := u * v3 % p * powMod p (u * (v3 * v3 % p * v % p) % p) ((p - 5) / 8) % p
  let check := v * (x * x % p) % p
  if check = u then some x
  else if check = (p - u) % p then some (x * sqrtMinusOne % p)
  else none

/-- The point with the encoding. -/
def decode (b : Bytes) : Option Point :=
  let high := number b >>> 255
  let y := number b % (1 <<< 255)
  if b.length ≠ 32 ∨ p ≤ y then none
  else
    match xOf? y with
    | none => none
    | some x =>
      if x = 0 ∧ high = 1 then none
      else some (affine (if x % 2 = high then x else p - x) y)

/-- The base point. -/
def base : Point := ((decode (bytes 32 (4 * inverseMod p 5 % p)))).getD neutral

end Point

/-! ## Signatures -/

/-- The digest of the parts as a number modulo the order. -/
def challenge (parts : List Bytes) : Nat := number (Digest.Sha2.sha512 parts.flatten) % order

/-- The private scalar of a seed: half of its digest with fixed low and high bits. -/
def scalar (seed : Bytes) : Nat :=
  number ((Digest.Sha2.sha512 seed).take 32) % (1 <<< 254) / 8 * 8 + (1 <<< 254)

/-- The public key of a seed. -/
def publicKey (seed : Bytes) : Bytes := (Point.mul (scalar seed) Point.base).encode

/-- The signature of a message. The public key is hashed as it is given. -/
def sign (key seed message : Bytes) : Bytes :=
  let r := challenge [(Digest.Sha2.sha512 seed).drop 32, message]
  let point := (Point.mul r Point.base).encode
  let s := (r + challenge [point, key, message] * scalar seed) % order
  point ++ bytes 32 s

/-- Whether the signature is one of the message. -/
def verify (key message signature : Bytes) : Bool :=
  let point := signature.take 32
  let s := number (signature.drop 32)
  match Point.decode key, Point.decode point with
  | some a, some r =>
    signature.length = 64 && s < order &&
      (Point.mul s .base).same (r.add (Point.mul (challenge [point, key, message]) a))
  | _, _ => false

end SshCert.Primitive.Ed25519

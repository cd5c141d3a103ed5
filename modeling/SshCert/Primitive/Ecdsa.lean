import SshCert.Primitive.RandomSource
import SshCert.Primitive.Weierstrass

/-
  ECDSA.
  The nonce of a signature is drawn at random: as many bytes as the group order has, of which
  only the bits of the order's size count, until they are a number between zero and the order.
  Signatures are pairs of numbers written in two halves of equal size. Verifying adds multiples
  of two points, and refuses to add equal ones: under a random nonce they differ but for a
  negligible chance.
-/

namespace SshCert.Primitive.Ecdsa

open Weierstrass

/-- The number that a digest stands for: its leading bits, as many as the order has. -/
def digestNumber (c : Params) (digest : Bytes) : Nat :=
  Bytes.toNat digest >>> (8 * digest.length - bitSize c.n)

/-- The affine coordinates of an uncompressed point on the curve. -/
def point? (curve : Curve) (b : Bytes) : Option (Nat × Nat) :=
  let c := params curve
  match b with
  | [] => none
  | form :: xy =>
    let x := Bytes.toNat (xy.take curve.coordinateSize)
    let y := Bytes.toNat (xy.drop curve.coordinateSize)
    if b.length = curve.pointSize ∧ form = 4 ∧ c.onCurve x y = true then some (x, y) else none

/-- Whether the bytes have the size and form of an uncompressed point. -/
def isPointForm (curve : Curve) (b : Bytes) : Bool :=
  b.length == curve.pointSize && b.head? == some 4

/-- Whether the bytes are a private scalar: short enough, and between zero and the order. -/
def isScalar (curve : Curve) (b : Bytes) : Bool :=
  b.length ≤ curve.coordinateSize && 0 < Bytes.toNat b && Bytes.toNat b < (params curve).n

/-- Whether the halves `r` and `s` are a signature of the digest under the point; the two summands
must be different. -/
def verify (curve : Curve) (point digest signature : Bytes) : Bool :=
  let c := params curve
  let r := Bytes.toNat (signature.take curve.coordinateSize)
  let s := Bytes.toNat (signature.drop curve.coordinateSize)
  match point? curve point with
  | none => false
  | some (x, y) =>
    signature.length = 2 * curve.coordinateSize && 0 < r && r < c.n && 0 < s && s < c.n &&
      let w := inverseMod c.n s
      let u := digestNumber c digest * w % c.n
      let v := r * w % c.n
      let a := c.mul u c.base
      let b := c.mul v (.affine x y)
      let sum := c.add a b
      !c.same a b && sum.z ≠ 0 && c.xCoordinate sum % c.n == r

/-- The nonce that random bytes give, if it is in range. -/
def nonce? (c : Params) (piece : Bytes) : Option Nat :=
  let k := Bytes.toNat piece % (1 <<< bitSize c.n)
  if 0 < k ∧ k < c.n then some k else none

/-- The signature that a nonce gives, unless one of its numbers is zero. -/
def signWith (curve : Curve) (scalar z k : Nat) : Option Bytes :=
  let c := params curve
  let r := c.xCoordinate (c.mul k c.base) % c.n
  let s := inverseMod c.n k * ((z + r * scalar) % c.n) % c.n
  if r = 0 ∨ s = 0 then none
  else some (Bytes.ofNat curve.coordinateSize r ++ Bytes.ofNat curve.coordinateSize s)

/-- The signature of a digest: the one of the first nonce that gives any. -/
def sign (curve : Curve) (scalar digest : Bytes) (random : RandomSource) : Option Bytes :=
  let c := params curve
  random.draw? (byteSize c.n) fun piece =>
    (nonce? c piece).bind (signWith curve (Bytes.toNat scalar) (digestNumber c digest))

end SshCert.Primitive.Ecdsa

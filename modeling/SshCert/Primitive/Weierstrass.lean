import SshCert.Algorithm.Name
import SshCert.Primitive.Modular

/-
  The groups of the curves y² = x³ - 3x + b over prime fields.
  Points are kept in Jacobian coordinates, so that adding and doubling need no division: the
  point (x, y, z) stands for (x / z², y / z³) and one with z = 0 for the neutral element.
-/

namespace SshCert.Primitive.Weierstrass

/-- A curve: the field, the constant, the order of the base point and its coordinates. -/
structure Params where
  p : Nat
  b : Nat
  n : Nat
  gx : Nat
  gy : Nat
  deriving DecidableEq, Repr

/-- The constants of the named curves. -/
def params : Curve → Params
  | .p256 =>
    { p := (1 <<< 256) - (1 <<< 224) + (1 <<< 192) + (1 <<< 96) - 1
      b := 0x5ac635d8aa3a93e7b3ebbd55769886bc651d06b0cc53b0f63bce3c3e27d2604b
      n := 0xffffffff00000000ffffffffffffffffbce6faada7179e84f3b9cac2fc632551
      gx := 0x6b17d1f2e12c4247f8bce6e563a440f277037d812deb33a0f4a13945d898c296
      gy := 0x4fe342e2fe1a7f9b8ee7eb4a7c0f9e162bce33576b315ececbb6406837bf51f5 }
  | .p384 =>
    { p := (1 <<< 384) - (1 <<< 128) - (1 <<< 96) + (1 <<< 32) - 1
      b := 0xb3312fa7e23ee7e4988e056be3f82d19181d9c6efe8141120314088f5013875ac656398d8a2ed19d2a85c8edd3ec2aef
      n := 0xffffffffffffffffffffffffffffffffffffffffffffffffc7634d81f4372ddf581a0db248b0a77aecec196accc52973
      gx := 0xaa87ca22be8b05378eb1c71ef320ad746e1d3b628ba79b9859f741e082542a385502f25dbf55296c3a545e3872760ab7
      gy := 0x3617de4a96262c6f5d9e98bf9292dc29f8f41dbd289a147ce9da3113b5f0b8c00a60b1ce1d7e819d7a431d7c90ea0e5f }
  | .p521 =>
    { p := (1 <<< 521) - 1
      b := 0x51953eb9618e1c9a1f929a21a0b68540eea2da725b99b315f3b8b489918ef109e156193951ec7e937b1652c0bd3bb1bf073573df883d2c34f1ef451fd46b503f00
      n := 0x1fffffffffffffffffffffffffffffffffffffffffffffffffffffffffffffffffa51868783bf2f966b7fcc0148f709a5d03bb5c9b8899c47aebb6fb71e91386409
      gx := 0xc6858e06b70404e9cd9e3ecb662395b4429c648139053fb521f828af606b4d3dbaa14b5e77efe75928fe1dc127a2ffa8de3348b3c1856a429bf97e7e31c2e5bd66
      gy := 0x11839296a789a3bc0045c8a5fb42c7d1bd998f54449579b446817afbd17273e662c97ee72995ef42640c550b9013fad0761353c7086a272c24088be94769fd16650 }

/-- A point in Jacobian coordinates. -/
structure Point where
  x : Nat
  y : Nat
  z : Nat
  deriving DecidableEq, Repr

/-- The neutral element. -/
def Point.neutral : Point := ⟨1, 1, 0⟩

/-- The point with affine coordinates. -/
def Point.affine (x y : Nat) : Point := ⟨x, y, 1⟩

namespace Params

/-- The base point. -/
def base (c : Params) : Point := .affine c.gx c.gy

/-- Whether the coordinates are reduced and fulfil the equation. -/
def onCurve (c : Params) (x y : Nat) : Bool :=
  x < c.p && y < c.p && (y * y + 3 * x) % c.p == (x * x * x + c.b) % c.p

/-- The sum of a point with itself. -/
def double (c : Params) (a : Point) : Point :=
  let delta := a.z * a.z % c.p
  let gamma := a.y * a.y % c.p
  let beta := a.x * gamma % c.p
  let alpha := 3 * (subMod c.p a.x delta * (a.x + delta) % c.p) % c.p
  let x := subMod c.p (alpha * alpha) (8 * beta % c.p)
  let y := subMod c.p (alpha * subMod c.p (4 * beta) x) (8 * (gamma * gamma) % c.p)
  ⟨x, y, 2 * a.y * a.z % c.p⟩

/-- The sum of two points. -/
def add (c : Params) (a b : Point) : Point :=
  if a.z = 0 then b
  else if b.z = 0 then a
  else
    let za := a.z * a.z % c.p
    let zb := b.z * b.z % c.p
    let ua := a.x * zb % c.p
    let ub := b.x * za % c.p
    let sa := a.y * b.z % c.p * zb % c.p
    let sb := b.y * a.z % c.p * za % c.p
    let h := subMod c.p ub ua
    let r := subMod c.p sb sa
    if h = 0 then if r = 0 then c.double a else .neutral
    else
      let hh := h * h % c.p
      let hhh := h * hh % c.p
      let v := ua * hh % c.p
      let x := subMod c.p (r * r) ((hhh + 2 * v) % c.p)
      let y := subMod c.p (r * subMod c.p v x) (sa * hhh % c.p)
      ⟨x, y, a.z * b.z % c.p * h % c.p⟩

/-- Whether two points are the same, by their coordinates over a common denominator. -/
def same (c : Params) (a b : Point) : Bool :=
  let za := a.z * a.z % c.p
  let zb := b.z * b.z % c.p
  (a.z == 0) == (b.z == 0) && a.x * zb % c.p == b.x * za % c.p
    && a.y * b.z % c.p * zb % c.p == b.y * a.z % c.p * za % c.p

/-- A multiple of a point, by doubling and adding. -/
def mul (c : Params) (k : Nat) (a : Point) : Point :=
  if _h : k = 0 then .neutral
  else
    let twice := c.double (c.mul (k / 2) a)
    if k % 2 = 0 then twice else c.add twice a
termination_by k
decreasing_by omega

/-- The affine first coordinate, zero for the neutral element. -/
def xCoordinate (c : Params) (a : Point) : Nat :=
  let w := inverseMod c.p a.z
  a.x * (w * w % c.p) % c.p

end Params

end SshCert.Primitive.Weierstrass

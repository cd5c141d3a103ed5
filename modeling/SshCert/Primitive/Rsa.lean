import SshCert.Der.Oid
import SshCert.Primitive.Modular
import SshCert.Primitive.RandomSource

/-
  RSA signatures with the padding of PKCS #1, version 1.5.
  A message is represented by the number of a padded block that names the hash and holds the
  digest. The private operation works modulo both primes and its result is only given out if
  the public operation leads back from it. It never sees the represented message: that is hidden
  by a random factor, and `powMod_signHidden` says that the factor cancels out.
-/

namespace SshCert.Primitive.Rsa

/-- The least number of bytes that a modulus may have. -/
def minModulusSize : Nat := 12

/-- Whether the number may be a modulus: it is odd and long enough. -/
def isModulus (n : Nat) : Bool := n % 2 == 1 && minModulusSize ≤ byteSize n

/-- A digest with the name of its hash. -/
def digestInfo (h : HashType) (digest : Bytes) : Bytes :=
  Der.sequence [Der.sequence [Der.oid (Der.ofHash h), Der.null], Der.octetString digest]

/-- The padded block of `size` bytes as a number; at least eight bytes of padding must fit. -/
def block? (size : Nat) (h : HashType) (digest : Bytes) : Option Nat :=
  let info := digestInfo h digest
  if info.length + 11 ≤ size then
    some (Bytes.toNat (0 :: 1 :: List.replicate (size - info.length - 3) 0xff ++ 0 :: info))
  else none

/-- Whether the signature, as long as the modulus, is that of the digest. -/
def verify (e n : Nat) (h : HashType) (digest signature : Bytes) : Bool :=
  let s := Bytes.toNat signature
  signature.length = byteSize n && 0 < s && s < n
    && block? (byteSize n) h digest == some (powMod n s e)

/-- A private key: the public exponent and modulus, the private exponent, both primes and the
inverse of the second prime modulo the first. -/
structure Private where
  e : Nat
  n : Nat
  d : Nat
  p : Nat
  q : Nat
  iqmp : Nat
  deriving DecidableEq, Repr

namespace Private

/-- What the private exponent is reduced by for the two primes. -/
def exponentModuli (k : Private) : Int × Int := ((k.p : Int) - 1, (k.q : Int) - 1)

/-- The private exponent reduced for the two primes. It is reduced before any number is checked. -/
def exponents? (k : Private) : Option (Int × Int) := do
  let a ← remainder? k.d k.exponentModuli.1
  let b ← remainder? k.d k.exponentModuli.2
  return (a, b)

/-- Whether the second prime and its inverse together have as many words as the first prime. -/
def fillsWords (k : Private) : Bool := wordSize k.p ≤ wordSize k.q + wordSize k.iqmp

/-- Whether the numbers can be used as a key. -/
def isValid (k : Private) : Bool :=
  k.iqmp ≠ 0 && isModulus k.n && k.fillsWords && isModulus (k.p * k.q)

/-- The number whose `e`-th power is `m` modulo `p * q`, if the key is a proper one. -/
def root (k : Private) (m : Nat) : Nat :=
  let (mp, mq) := k.exponentModuli
  let xp := powMod k.p m ((k.d : Int) % mp).toNat
  let xq := powMod k.q m ((k.d : Int) % mq).toNat
  xq + k.q * ((((xp : Int) - xq) * k.iqmp) % k.p).toNat

/-- The number that random bytes give for hiding, if it has no common factor with the modulus. -/
def hiding? (k : Private) (piece : Bytes) : Option Nat :=
  let r := Bytes.toNat piece
  if Nat.gcd r k.n = 1 then some r else none

/-- The signature of the number `m`, which is hidden by `r` while its root is taken. -/
def signHidden (k : Private) (m r : Nat) : Option Nat :=
  let hidden := m * powMod k.n r k.e % k.n
  let x := k.root hidden
  if powMod k.n x k.e = hidden then some (x * inverse k.n r % k.n) else none

/-- The signature of a digest, as long as the modulus. The hiding number is drawn from as many
whole words as the modulus has. -/
def sign (k : Private) (h : HashType) (digest : Bytes) (random : RandomSource) :
    Option Bytes := do
  let m ← block? (byteSize (k.p * k.q)) h digest
  let r ← random.draw? (8 * wordSize k.n) k.hiding?
  let s ← k.signHidden m r
  return Bytes.ofNat (byteSize k.n) s

/-- The public operation leads from a signature back to the number, whatever has hidden it. -/
theorem powMod_signHidden {k : Private} {m r s : Nat} (hm : m < k.n)
    (hr : Nat.gcd r k.n = 1) (h : k.signHidden m r = some s) : powMod k.n s k.e = m := by
  simp only [signHidden, Option.ite_none_right_eq_some, Option.some.injEq] at h
  obtain ⟨hroot, rfl⟩ := h
  generalize k.root (m * powMod k.n r k.e % k.n) = x at hroot ⊢
  generalize hi : inverse k.n r = i
  have hinv : r * i % k.n = 1 % k.n := by
    rw [← hi, Nat.mul_comm]
    exact inverse_mul (by omega) hr
  rw [powMod_eq, powMod_eq, Nat.mul_mod_mod] at hroot
  rw [powMod_eq]
  show (x * i % k.n) ^ k.e % k.n = m
  have hpow : x ^ k.e % k.n = m * r ^ k.e % k.n := hroot
  rw [← Nat.pow_mod, Nat.mul_pow, ← Nat.mod_mul_mod, hpow, Nat.mod_mul_mod, Nat.mul_assoc,
    ← Nat.mul_pow, ← Nat.mul_mod_mod, Nat.pow_mod, hinv, ← Nat.pow_mod, Nat.one_pow,
    Nat.mul_mod_mod, Nat.mul_one, Nat.mod_eq_of_lt hm]

end Private

end SshCert.Primitive.Rsa

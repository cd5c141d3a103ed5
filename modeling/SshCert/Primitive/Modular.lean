import SshCert.Bytes

/-
  Arithmetic modulo a number: powers, inverses, and sizes in bits, bytes and words.
  `powMod_eq` says that squaring gives the power, `inverse_mul` that the Euclidean algorithm gives
  the inverse.
-/

namespace SshCert.Primitive

/-- `b ^ e` modulo `m`, by repeated squaring. -/
def powMod (m b e : Nat) : Nat :=
  if _h : e = 0 then 1 % m
  else
    let half := powMod m (b * b % m) (e / 2)
    if e % 2 = 0 then half else half * b % m
termination_by e
decreasing_by omega

/-- The inverse of `a` modulo the prime `p`, zero if `p` divides `a`. -/
def inverseMod (p a : Nat) : Nat := powMod p (a % p) (p - 2)

/-- Integers `s` and `t` with `s * a + t * b = gcd a b`, by the extended Euclidean algorithm. -/
def bezout (a b : Nat) : Int × Int :=
  if _h : b = 0 then (1, 0)
  else
    let (s, t) := bezout b (a % b)
    (t, s - (a / b : Nat) * t)
termination_by b
decreasing_by exact Nat.mod_lt _ (by omega)

/-- The inverse of `a` modulo `m`, if they have no common factor. -/
def inverse (m a : Nat) : Nat := ((bezout a m).1 % m).toNat

/-- `a - b` modulo `m`, for `b` below `m`. -/
def subMod (m a b : Nat) : Nat := (a + (m - b)) % m

/-- The remainder of `a` modulo `m`, `none` where that divides by zero. -/
def remainder? (a m : Int) : Option Int := if m = 0 then none else some (a % m)

/-- How many bits a number has. -/
def bitSize (n : Nat) : Nat := if n = 0 then 0 else n.log2 + 1

/-- How many bytes a number has. -/
def byteSize (n : Nat) : Nat := (bitSize n + 7) / 8

/-- How many words of 64 bits a number has. -/
def wordSize (n : Nat) : Nat := (bitSize n + 63) / 64

theorem powMod_eq (m b e : Nat) : powMod m b e = Nat.pow b e % m := by
  show powMod m b e = b ^ e % m
  induction e using Nat.strongRecOn generalizing b with
  | ind e ih =>
    rw [powMod]
    split
    · next h => simp [h]
    · next h =>
      have hpow : (b * b % m) ^ (e / 2) % m = b ^ (2 * (e / 2)) % m := by
        rw [← Nat.pow_mod, ← Nat.pow_two, Nat.pow_mul]
      have hdiv := Nat.div_add_mod e 2
      rw [ih (e / 2) (by omega), hpow]
      split
      · next he => rw [show 2 * (e / 2) = e by omega]
      · next he => rw [Nat.mod_mul_mod, ← Nat.pow_succ, show (2 * (e / 2)).succ = e by omega]

theorem bezout_eq (a b : Nat) : (bezout a b).1 * a + (bezout a b).2 * b = (Nat.gcd a b : Nat) := by
  induction b using Nat.strongRecOn generalizing a with
  | ind b ih =>
    rw [bezout]
    split
    · next h => simp [h]
    · next h =>
      have hrec := ih (a % b) (Nat.mod_lt _ (by omega)) b
      have hdiv : (a : Int) = b * (a / b : Nat) + (a % b : Nat) := by
        exact_mod_cast (Nat.div_add_mod a b).symm
      have hgcd : Nat.gcd b (a % b) = Nat.gcd a b := by
        rw [Nat.gcd_comm, ← Nat.gcd_rec, Nat.gcd_comm]
      rw [← hgcd, ← hrec]
      grind

theorem inverse_mul {m a : Nat} (hm : 0 < m) (h : Nat.gcd a m = 1) :
    inverse m a * a % m = 1 % m := by
  have hnonneg : (0 : Int) ≤ (bezout a m).1 % m := Int.emod_nonneg _ (by omega)
  have hbezout := bezout_eq a m
  rw [h] at hbezout
  have hint : ((inverse m a * a % m : Nat) : Int) = ((1 % m : Nat) : Int) := by
    rw [Int.natCast_emod, Int.natCast_mul, inverse, Int.toNat_of_nonneg hnonneg, Int.natCast_emod,
      Int.mul_emod, Int.emod_emod, ← Int.mul_emod, ← hbezout, Int.add_mul_emod_self_right]
  exact_mod_cast hint

end SshCert.Primitive

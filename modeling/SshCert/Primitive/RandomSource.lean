import SshCert.Bytes

/-
  Sources of random bytes, and choosing by trial.
  Who needs a random number with a property cuts the source into pieces and takes the first one
  that will do. `draw?_eq_some` says that nothing else is taken: all earlier pieces have failed.
-/

namespace SshCert

/-- A source of random bytes: how many it has, and the byte at each position. -/
structure RandomSource where
  size : Nat
  byte : Nat → UInt8

namespace RandomSource

/-- The piece with the given number, of a source that is cut into pieces of `length` bytes. -/
def piece (r : RandomSource) (length i : Nat) : Bytes :=
  (List.range length).map fun j => r.byte (length * i + j)

/-- The first result of `f` on the numbers from `start`, of which it tries `count`. -/
def firstResult {α : Type} (f : Nat → Option α) (start : Nat) : (count : Nat) → Option α
  | 0 => none
  | count + 1 =>
    match f start with
    | some x => some x
    | none => firstResult f (start + 1) count

/-- What `f` makes of the first piece of `length` bytes that it accepts. -/
def draw? {α : Type} (r : RandomSource) (length : Nat) (f : Bytes → Option α) : Option α :=
  firstResult (fun i => f (r.piece length i)) 0 (r.size / length)

theorem firstResult_eq_some {α : Type} {f : Nat → Option α} {start count : Nat} {x : α}
    (h : firstResult f start count = some x) :
    ∃ i, i < count ∧ f (start + i) = some x ∧ ∀ j, j < i → f (start + j) = none := by
  induction count generalizing start with
  | zero => simp [firstResult] at h
  | succ count ih =>
    rw [firstResult] at h
    split at h
    · next y hy =>
      exact ⟨0, by omega, by rw [Nat.add_zero, hy, h], fun j hj => absurd hj (by omega)⟩
    · next hnone =>
      obtain ⟨i, hi, hx, hbefore⟩ := ih h
      refine ⟨i + 1, by omega, by rw [← hx]; congr 1; omega, fun j hj => ?_⟩
      cases j with
      | zero => exact hnone
      | succ j => rw [← hbefore j (by omega)]; congr 1; omega

theorem draw?_eq_some {α : Type} {r : RandomSource} {length : Nat} {f : Bytes → Option α} {x : α}
    (h : r.draw? length f = some x) :
    ∃ i, f (r.piece length i) = some x ∧ ∀ j, j < i → f (r.piece length j) = none := by
  obtain ⟨i, _, hx, hbefore⟩ := firstResult_eq_some h
  simp only [Nat.zero_add] at hx hbefore
  exact ⟨i, hx, hbefore⟩

end RandomSource

end SshCert

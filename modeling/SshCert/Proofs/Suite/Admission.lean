import SshCert.Key.File
import SshCert.Suite.Basic

/-
  Which keys a suite lets in.
  The lines that are written for a refused key decide nothing: a key is let in if it can be read
  and its values are accepted (`Suite.loadPublic_eq_some_iff`, `Suite.loadPrivate_eq_some_iff`).
-/

namespace SshCert.Suite

variable {s : Suite}

theorem admitPublic_value (s : Suite) (k : PublicKey) :
    (s.admitPublic k).value = if s.acceptsPublic k = true then some k else none := by
  rw [admitPublic, Logged.value_ite, Logged.value_bind, Logged.value_pure, Logged.value_pure]

theorem admitPrivate_value (s : Suite) (k : PrivateKey) :
    (s.admitPrivate k).value = if s.acceptsPrivate k = true then some k else none := by
  rw [admitPrivate, Logged.value_ite, Logged.value_bind, Logged.value_pure, Logged.value_pure]

theorem loadPublic_eq_some_iff {blob : Bytes} {k : PublicKey} :
    (s.loadPublic blob).value = some k ↔
      PublicKey.parse blob = .ok k ∧ s.acceptsPublic k = true := by
  unfold loadPublic
  cases PublicKey.parse blob with
  | error e =>
    constructor
    · intro h
      cases h
    · intro h
      cases h.1
  | ok k' =>
    dsimp only
    rw [admitPublic_value, Option.ite_none_right_eq_some]
    constructor
    · intro h
      obtain ⟨haccepts, hk⟩ := h
      cases hk
      exact ⟨rfl, haccepts⟩
    · intro h
      obtain ⟨hk, haccepts⟩ := h
      cases hk
      exact ⟨haccepts, rfl⟩

theorem loadPrivate_eq_some_iff {text comment : Bytes} {k : PrivateKey} :
    (s.loadPrivate text).value = ⟨some k, comment⟩ ↔
      KeyFile.parse text = .ok (k, comment) ∧ s.acceptsPrivate k = true := by
  unfold loadPrivate
  cases KeyFile.parse text with
  | error e =>
    constructor
    · intro h
      cases h
    · intro h
      cases h.1
  | ok p =>
    obtain ⟨k', comment'⟩ := p
    dsimp only
    rw [Logged.value_bind, admitPrivate_value]
    by_cases haccepts : s.acceptsPrivate k' = true
    · rw [if_pos haccepts]
      constructor
      · intro h
        obtain ⟨hk, hcomment⟩ := LoadedKey.mk.inj h
        cases hk
        cases hcomment
        exact ⟨rfl, haccepts⟩
      · intro h
        cases h.1
        rfl
    · rw [if_neg haccepts]
      constructor
      · intro h
        cases (LoadedKey.mk.inj h).1
      · intro h
        cases h.1
        exact absurd h.2 haccepts

end SshCert.Suite

import SshCert.Certificate.Decode
import SshCert.Proofs.Wire.Reading

/-
  Steps of the certificate decoder.
  A step reads a field or goes on with a value. Two properties hold of every step and are kept when
  steps are put together. `FailsAs` says of what kind all errors are. `Takes` says which fields are
  taken, whatever follows them, and that data which end inside one of these fields are refused with
  its name.
-/

namespace SshCert.Certificate

open Wire

/-! ## Single steps -/

section Steps

variable {α β : Type} {b : Bytes} {e : Error}

theorem field_eq_ok_iff {f : Field} {r : Reader α} {p : α × Bytes} :
    field f r b = .ok p ↔ r b = some p := by
  unfold field
  cases r b with
  | none => exact ⟨nofun, nofun⟩
  | some q => rw [Except.ok.injEq, Option.some.injEq]

theorem require_eq_ok_iff {cause : Error} {o : Option α} {p : α × Bytes} :
    require cause o b = .ok p ↔ ∃ a, o = some a ∧ p = (a, b) := by
  cases o with
  | none =>
    constructor
    · intro h
      cases h
    · intro h
      obtain ⟨a, ha, -⟩ := h
      cases ha
  | some a =>
    rw [require, pure_eq_ok_iff]
    constructor
    · intro h
      exact ⟨a, rfl, h⟩
    · intro h
      obtain ⟨a', ha, hp⟩ := h
      cases ha
      exact hp

theorem readsString {f : Field} {v rest : Bytes} (h : Fits v) :
    field f string (encodeString v ++ rest) = .ok (v, rest) :=
  field_eq_ok_iff.mpr (string_encodeString h rest)

theorem require_map_bind {γ : Type} (cause : Error) (o : Option α) (f : α → γ)
    (g : γ → Decoder β) :
    (require cause (o.map f) >>= g) = require cause o >>= fun a => g (f a) := by
  cases o <;> rfl

theorem require_eq_error_iff {cause : Error} {o : Option α} :
    require cause o b = .error e ↔ o = none ∧ e = cause := by
  cases o with
  | none =>
    constructor
    · intro h
      cases h
      exact ⟨rfl, rfl⟩
    · intro h
      rw [h.2]
      rfl
  | some a =>
    constructor
    · intro h
      cases h
    · intro h
      cases h.1

end Steps

/-! ## The kind of the errors -/

section Kinds

variable {α β : Type} {b : Bytes} {e : Error}

/-- All errors are of the kind. -/
def FailsAs (kind : ErrorKind) (x : Decoder α) : Prop := ∀ b e, x b = .error e → e.kind = kind

theorem failsAs_pure (kind : ErrorKind) (a : α) : FailsAs kind (pure a : Decoder α) := by
  intro b e h
  cases h

theorem failsAs_field (f : Field) (r : Reader α) : FailsAs .invalidCertificate (field f r) := by
  intro b e h
  unfold field at h
  split at h
  · cases h
  · cases h
    rfl

theorem failsAs_require (cause : Error) (o : Option α) : FailsAs cause.kind (require cause o) := by
  intro b e h
  cases o with
  | none =>
    cases h
    rfl
  | some a => cases h

theorem FailsAs.bind {kind : ErrorKind} {x : Decoder α} {g : α → Decoder β} (hx : FailsAs kind x)
    (hg : ∀ a, FailsAs kind (g a)) : FailsAs kind (x >>= g) := by
  intro b e h
  rcases bind_eq_error_iff.mp h with h | ⟨a, r, -, h⟩
  · exact hx b e h
  · exact hg a r e h

theorem FailsAs.kind_eq {kind : ErrorKind} {x : Decoder α} (hx : FailsAs kind x)
    (h : x b = .error e) : e.kind = kind :=
  hx b e h

end Kinds

/-! ## The fields that are taken -/

/-- The decoder takes the fields with the given bytes and gives `a`. If the data end inside one of
the fields, it names that field. -/
structure Takes {α : Type} (x : Decoder α) (portion : Field → Bytes) (fs : List Field) (a : α) :
    Prop where
  whole (rest : Bytes) : x (fs.flatMap portion ++ rest) = .ok (a, rest)
  cut {before after : List Field} {f : Field} (hfs : fs = before ++ f :: after) {k : Nat}
    (hk : k < (portion f).length) :
    x (before.flatMap portion ++ (portion f).take k) = .error (.truncated f)

section Taking

variable {α β : Type} {portion : Field → Bytes}

theorem takes_pure (portion : Field → Bytes) (a : α) : Takes (pure a : Decoder α) portion [] a where
  whole rest := rfl
  cut hfs := by simp at hfs

theorem takes_require (portion : Field → Bytes) (cause : Error) {o : Option α} {a : α}
    (h : o = some a) : Takes (require cause o) portion [] a where
  whole rest := require_eq_ok_iff.mpr ⟨a, h, rfl⟩
  cut hfs := by simp at hfs

theorem takes_field {r : Reader α} {good : α → Prop} {encode : α → Bytes}
    (hr : Exact r good encode) {f : Field} {a : α} (ha : good a) (hf : portion f = encode a) :
    Takes (field f r) portion [f] a where
  whole rest := by
    rw [List.flatMap_singleton, hf, field_eq_ok_iff]
    exact (hr _ _ _).mpr ⟨ha, rfl⟩
  cut {before after g} hfs {k} hk := by
    rcases List.cons_eq_append_iff.mp hfs with ⟨rfl, hg⟩ | ⟨before', -, hnil⟩
    · obtain ⟨rfl, -⟩ := List.cons.inj hg
      rw [hf] at hk ⊢
      simp [field, hr.take_eq_none ha hk]
    · simp at hnil

theorem Takes.bind {x : Decoder α} {g : α → Decoder β} {fs gs : List Field} {a : α} {c : β}
    (hx : Takes x portion fs a) (hg : Takes (g a) portion gs c) :
    Takes (x >>= g) portion (fs ++ gs) c where
  whole rest := by
    rw [List.flatMap_append, List.append_assoc]
    exact bind_eq_ok_iff.mpr ⟨a, _, hx.whole _, hg.whole rest⟩
  cut {before after f} hfs {k} hk := by
    rw [bind_eq_error_iff]
    rcases List.append_eq_append_iff.mp hfs with ⟨mid, rfl, hgs⟩ | ⟨mid, hfirst, hrest⟩
    · -- the field is one of the second step, so the first one is whole
      right
      refine ⟨a, mid.flatMap portion ++ (portion f).take k, ?_, hg.cut hgs hk⟩
      rw [List.flatMap_append, List.append_assoc]
      exact hx.whole _
    · rcases List.cons_eq_append_iff.mp hrest with ⟨rfl, rfl⟩ | ⟨mid', rfl, -⟩
      · -- the field is the first one of the second step
        right
        rw [List.append_nil] at hfirst
        rw [← hfirst]
        exact ⟨a, _, hx.whole _, hg.cut (List.nil_append _).symm hk⟩
      · left
        exact hx.cut hfirst hk

theorem Takes.field_bind {r : Reader α} {good : α → Prop} {encode : α → Bytes}
    (hr : Exact r good encode) {f : Field} {gs : List Field} {a : α} {c : β} {g : α → Decoder β}
    (ha : good a) (hf : portion f = encode a) (hg : Takes (g a) portion gs c) :
    Takes (field f r >>= g) portion (f :: gs) c :=
  (takes_field hr ha hf).bind hg

theorem Takes.require_bind {cause : Error} {o : Option α} {gs : List Field} {a : α} {c : β}
    {g : α → Decoder β} (ho : o = some a) (hg : Takes (g a) portion gs c) :
    Takes (require cause o >>= g) portion gs c :=
  (takes_require portion cause ho).bind hg

end Taking

end SshCert.Certificate

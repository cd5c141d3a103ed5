import SshCert.Proofs.Key.Armour
import SshCert.Proofs.Key.Contents
import SshCert.Proofs.Suite.Loading
import SshCert.Suite.Standard

/-
  What loading a key file tells about the secrets in it.
  Two files are compared whose contents are equal once their secret fields are blanked
  (`KeyFile.Contents.redact`). What is read from them is `KeyFile.Alike`: the same cause of
  failure or keys with the same public half, unless the size of an Ed25519 secret makes the
  difference. `Suite.loadPrivate_hides_secrets` says that therefore nothing but success or failure
  shows which secrets a file holds. Divisions by zero while a key is made are not looked at here.
-/

namespace SshCert

namespace KeyFile

/-! ## Blanked secrets -/

/-- The fields with the secret ones blanked. -/
def hide (secret : List Bool) (fields : List Bytes) : List Bytes :=
  secret.zipWith (fun isSecret f => if isSecret then [] else f) fields

namespace Contents

/-- The contents without their secrets. The padding goes as well: how long it is depends on the
secrets. -/
def redact (c : Contents) : Contents :=
  { c with fields := hide (secretFields c.type?) c.fields, padding := [] }

end Contents

/-- What is read from two files that differ in their secrets only. The size of an Ed25519 secret
may be the reason that a key is read from just one of them. -/
inductive Alike : Except Error (PrivateKey × Bytes) → Except Error (PrivateKey × Bytes) → Prop
  | cause (e : Error) : Alike (.error e) (.error e)
  | keys {k₁ k₂ : PrivateKey} (comment : Bytes) (h : k₁.publicHalf = k₂.publicHalf) :
    Alike (.ok (k₁, comment)) (.ok (k₂, comment))
  | first {seed key : Bytes} (comment : Bytes) (e : Error) (hseed : seed.length = ed25519KeySize)
    (hkey : key.length = ed25519KeySize) : Alike (.ok (.ed25519 seed key, comment)) (.error e)
  | second {seed key : Bytes} (comment : Bytes) (e : Error) (hseed : seed.length = ed25519KeySize)
    (hkey : key.length = ed25519KeySize) : Alike (.error e) (.ok (.ed25519 seed key, comment))

section Fields

variable {name : Bytes}

theorem length_take_secret {secret : Bytes}
    (h : (secret.length == ed25519KeySize || secret.length == 2 * ed25519KeySize) = true) :
    (secret.take ed25519KeySize).length = ed25519KeySize := by
  rw [Bool.or_eq_true, beq_iff_eq, beq_iff_eq] at h
  rw [List.length_take]
  omega

theorem alike_ed25519 (key secret₁ secret₂ comment : Bytes) :
    Alike (keyIn name (some .ed25519) [key, secret₁, comment])
      (keyIn name (some .ed25519) [key, secret₂, comment]) := by
  simp only [keyIn]
  by_cases hkey : key.length = ed25519KeySize
  · simp only [hkey, BEq.rfl, Bool.true_and]
    split
    · next h₁ =>
      split
      · exact .keys comment rfl
      · exact .first comment _ (length_take_secret h₁) hkey
    · split
      · next h₂ => exact .second comment _ (length_take_secret h₂) hkey
      · exact .cause _
  · simp only [beq_eq_false_iff_ne.mpr hkey, Bool.false_and]
    exact .cause _

theorem alike_ecdsa (c : Curve) (curve point scalar₁ scalar₂ comment : Bytes) :
    Alike (keyIn name (some (.ecdsa c)) [curve, point, scalar₁, comment])
      (keyIn name (some (.ecdsa c)) [curve, point, scalar₂, comment]) := by
  simp only [keyIn]
  split
  · exact .keys comment rfl
  · exact .cause _

/-- Fields that are equal once the secrets are blanked hold keys that are alike. -/
theorem alike_keyIn {type? : Option KeyType} {fields₁ fields₂ : List Bytes}
    (h₁ : fields₁.length = (secretFields type?).length)
    (h₂ : fields₂.length = (secretFields type?).length)
    (h : hide (secretFields type?) fields₁ = hide (secretFields type?) fields₂) :
    Alike (keyIn name type? fields₁) (keyIn name type? fields₂) := by
  match type?, fields₁, fields₂, h₁, h₂ with
  | some .ed25519, [key, secret₁, comment], [_, secret₂, _], _, _ =>
    cases h
    exact alike_ed25519 key secret₁ secret₂ comment
  | some .rsa, [n, e, _, _, _, _, comment], [_, _, _, _, _, _, _], _, _ =>
    cases h
    exact .keys comment rfl
  | some (.ecdsa c), [curve, point, scalar₁, comment], [_, _, scalar₂, _], _, _ =>
    cases h
    exact alike_ecdsa c curve point scalar₁ scalar₂ comment
  | some .dss, [], [], _, _ => exact .cause _
  | none, [], [], _, _ => exact .cause _

end Fields

namespace Contents

variable {c₁ c₂ : Contents}

/-- Contents that are equal once the secrets are blanked hold keys that are alike. -/
theorem alike_key (h₁ : c₁.WellFramed) (h₂ : c₂.WellFramed) (h : c₁.redact = c₂.redact) :
    Alike c₁.key c₂.key := by
  unfold redact at h
  rw [Contents.mk.injEq] at h
  obtain ⟨hcipher, hkdf, -, hcount, -, hcheck₁, hcheck₂, hname, hfields, -⟩ := h
  have htype : c₁.type? = c₂.type? := congrArg KeyType.ofName? hname
  have hkeys : Alike (keyIn c₁.typeName c₁.type? c₁.fields)
      (keyIn c₂.typeName c₂.type? c₂.fields) := by
    rw [htype] at hfields
    rw [hname, htype]
    exact alike_keyIn (htype ▸ h₁.fieldCount) h₂.fieldCount hfields
  unfold key sectionKey
  rw [hcipher, hkdf, hcount, hcheck₁, hcheck₂]
  split
  · split
    · split
      · exact hkeys
      · exact .cause _
    · exact .cause _
  · exact .cause _

end Contents

/-! ## Texts -/

/-- Whether the text holds the contents: the lines between its markers are the base64 of their
data. -/
structure Holds (text : Bytes) (c : Contents) : Prop where
  isKeyFile : isKeyFile text = true
  body : ∃ body, body? text = some body ∧ Base64.decode body = some c.encode
  wellFramed : c.WellFramed

theorem Holds.parse_eq {text : Bytes} {c : Contents} (h : Holds text c) : parse text = c.key := by
  obtain ⟨body, hbody, hdecode⟩ := h.body
  unfold parse
  simp only [h.isKeyFile, hbody, hdecode]
  exact h.wellFramed.parseData_encode

/-- Any contents can be put into a text. -/
theorem Contents.WellFramed.holds_armour {c : Contents} (h : c.WellFramed) :
    Holds (Pem.armour label c.encode) c where
  isKeyFile := isKeyFile_armour c.encode
  body := ⟨_, body?_armour c.encode, Base64.decode_encode c.encode_ne_nil⟩
  wellFramed := h

end KeyFile

/-! ## Loading -/

namespace Suite

open KeyFile

/-- Whether an Ed25519 private key is accepted if its parts have the right sizes. -/
def AcceptsSized (s : Suite) : Prop :=
  ∀ seed key : Bytes, seed.length = ed25519KeySize → key.length = ed25519KeySize →
    s.acceptsPrivate (.ed25519 seed key) = true

theorem acceptsSized_standard : standard.AcceptsSized := by
  intro seed key hseed hkey
  show (seed.length == ed25519KeySize && key.length == ed25519KeySize) = true
  simp [hseed, hkey]

variable {s : Suite}

/-- Files that differ in their secrets only leave the same lines and give keys with the same public
half, unless just one of them gives a key. -/
theorem load_alike (hs : s.AcceptsSized) {t₁ t₂ : Bytes} (halike : Alike (parse t₁) (parse t₂))
    (hboth : (s.loadPrivate t₁).value.key?.isSome = (s.loadPrivate t₂).value.key?.isSome) :
    (s.loadPrivate t₁).lines = (s.loadPrivate t₂).lines ∧
    (s.loadPrivate t₁).value.comment = (s.loadPrivate t₂).value.comment ∧
    (s.loadPrivate t₁).value.key?.map PrivateKey.publicHalf =
      (s.loadPrivate t₂).value.key?.map PrivateKey.publicHalf := by
  generalize hparse₁ : parse t₁ = r₁ at halike
  generalize hparse₂ : parse t₂ = r₂ at halike
  cases halike with
  | cause e =>
    rw [loadPrivate_of_error hparse₁, loadPrivate_of_error hparse₂]
    exact ⟨rfl, rfl, rfl⟩
  | @keys k₁ k₂ comment hhalf =>
    have htype : k₁.type = k₂.type := by
      rw [← k₁.type_publicHalf, hhalf, k₂.type_publicHalf]
    rw [loadPrivate_of_ok hparse₁, loadPrivate_of_ok hparse₂] at hboth ⊢
    by_cases haccepts₁ : s.acceptsPrivate k₁ = true <;>
      by_cases haccepts₂ : s.acceptsPrivate k₂ = true
    · simp [haccepts₁, haccepts₂, htype, hhalf]
    · simp [haccepts₁, haccepts₂] at hboth
    · simp [haccepts₁, haccepts₂] at hboth
    · simp [haccepts₁, haccepts₂, htype]
  | first comment e hseed hkey =>
    rw [loadPrivate_of_ok hparse₁, if_pos (hs _ _ hseed hkey),
      loadPrivate_of_error hparse₂] at hboth
    cases hboth
  | second comment e hseed hkey =>
    rw [loadPrivate_of_error hparse₁, loadPrivate_of_ok hparse₂,
      if_pos (hs _ _ hseed hkey)] at hboth
    cases hboth

/-- Two files whose contents differ in nothing but secrets, and that both give a key or both give
none, leave the same lines and comment. If they give keys, all that is public about these is the
same. -/
theorem loadPrivate_hides_secrets (hs : s.AcceptsSized) {t₁ t₂ : Bytes} {c₁ c₂ : Contents}
    (h₁ : Holds t₁ c₁) (h₂ : Holds t₂ c₂) (hredact : c₁.redact = c₂.redact)
    (hboth : (s.loadPrivate t₁).value.key?.isSome = (s.loadPrivate t₂).value.key?.isSome) :
    (s.loadPrivate t₁).lines = (s.loadPrivate t₂).lines ∧
    (s.loadPrivate t₁).value.comment = (s.loadPrivate t₂).value.comment ∧
    ∀ k₁ k₂ : PrivateKey, (s.loadPrivate t₁).value.key? = some k₁ →
      (s.loadPrivate t₂).value.key? = some k₂ →
        k₁.type = k₂.type ∧ s.publicOf k₁ = s.publicOf k₂ ∧
        k₁.publicHalf.encode = k₂.publicHalf.encode ∧
        s.fingerprint k₁.publicHalf = s.fingerprint k₂.publicHalf ∧
        k₁.publicHalf.pem = k₂.publicHalf.pem := by
  have halike : Alike (parse t₁) (parse t₂) := by
    rw [h₁.parse_eq, h₂.parse_eq]
    exact Contents.alike_key h₁.wellFramed h₂.wellFramed hredact
  obtain ⟨hlines, hcomment, hhalves⟩ := load_alike hs halike hboth
  refine ⟨hlines, hcomment, ?_⟩
  intro k₁ k₂ hk₁ hk₂
  have hhalf : k₁.publicHalf = k₂.publicHalf := by
    rw [hk₁, hk₂] at hhalves
    exact Option.some.inj hhalves
  refine ⟨?_, ?_, ?_, ?_, ?_⟩
  · rw [← k₁.type_publicHalf, hhalf, k₂.type_publicHalf]
  · unfold publicOf
    rw [hhalf]
  · rw [hhalf]
  · rw [hhalf]
  · rw [hhalf]

namespace Secrets

/-- An RSA key that has the secrets. -/
def contents (d iqmp p q padding : Bytes) : Contents :=
  .single [] KeyType.rsa.name
    [0x80 :: List.replicate 11 1, [3], d, iqmp, p, q, ascii "ann@host"] padding

def first : Contents := contents [5] [2] (List.replicate 6 0xff) (List.replicate 6 0xff) [1, 2, 3]

def second : Contents :=
  contents [] [1, 2, 3] (0 :: List.replicate 8 0xff) (List.replicate 7 0xff) []

def firstFile : Bytes := Pem.armour label first.encode

def secondFile : Bytes := Pem.armour label second.encode

theorem holds_first : Holds firstFile first := by
  have hframed : first.WellFramed := by
    refine ⟨?_, ?_, ?_, ?_, ?_, ?_, ?_⟩ <;> decide
  exact hframed.holds_armour

theorem holds_second : Holds secondFile second := by
  have hframed : second.WellFramed := by
    refine ⟨?_, ?_, ?_, ?_, ?_, ?_, ?_⟩ <;> decide
  exact hframed.holds_armour

theorem isSome_first : (standard.loadPrivate firstFile).value.key?.isSome = true := by
  rw [loadPrivate_of_ok (holds_first.parse_eq.trans rfl),
    if_pos (by decide)]
  rfl

theorem isSome_second : (standard.loadPrivate secondFile).value.key?.isSome = true := by
  rw [loadPrivate_of_ok (holds_second.parse_eq.trans rfl),
    if_pos (by decide)]
  rfl

end Secrets

open Secrets in
/-- Two RSA keys with other secrets of other lengths are both loaded and leave the same line. -/
theorem loadPrivate_hides_secrets_rsa :
    standard.AcceptsSized ∧ Holds firstFile first ∧ Holds secondFile second ∧
    first ≠ second ∧ first.redact = second.redact ∧
    (standard.loadPrivate firstFile).value.key?.isSome = true ∧
    (standard.loadPrivate secondFile).value.key?.isSome = true ∧
    (standard.loadPrivate firstFile).lines = (standard.loadPrivate secondFile).lines := by
  have hredact : first.redact = second.redact := by decide +kernel
  have hboth := isSome_first.trans isSome_second.symm
  exact ⟨acceptsSized_standard, holds_first, holds_second, by decide +kernel, hredact, isSome_first,
    isSome_second,
    (loadPrivate_hides_secrets acceptsSized_standard holds_first holds_second hredact hboth).1⟩

end Suite

end SshCert

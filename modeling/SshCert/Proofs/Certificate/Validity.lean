import SshCert.Certificate.Validity

/-
  When a certificate is valid.
  The checks are made in order, but whether any of them fails does not depend on the order:
  there is no reason against a certificate exactly if it is `ValidFor` the name at the time.
  The order decides which reason is given (`invalidity?_eq`). What a certificate is valid for
  changes in one direction with the time, its principals and the policy, and
  `invalidity?_decides` puts all of this together.
-/

namespace SshCert.Certificate

/-- The certificate is valid for the name at the time: both bounds hold where they are not zero,
and where principals are looked at they are empty or have the name. -/
structure ValidFor (c : Certificate) (policy : Policy) (name : Bytes) (now : UInt64) :
    Prop where
  notExpired : c.validBefore = 0 ∨ now < c.validBefore
  started : c.validAfter = 0 ∨ c.validAfter ≤ now
  principal : c.checksPrincipals policy = true → c.principals = [] ∨ name ∈ c.principals

theorem invalidity?_eq_none_iff {c : Certificate} {policy : Policy} {name : Bytes}
    {now : UInt64} : c.invalidity? policy name now = none ↔ c.ValidFor policy name now := by
  have hexpired : ¬ (c.validBefore ≠ 0 ∧ c.validBefore ≤ now) ↔
      c.validBefore = 0 ∨ now < c.validBefore := by
    rw [Decidable.not_and_iff_not_or_not, Decidable.not_not, UInt64.not_le]
  have hearly : ¬ (c.validAfter ≠ 0 ∧ now < c.validAfter) ↔
      c.validAfter = 0 ∨ c.validAfter ≤ now := by
    rw [Decidable.not_and_iff_not_or_not, Decidable.not_not, UInt64.not_lt]
  have hother : ¬ (c.checksPrincipals policy && !c.principals.isEmpty &&
      !c.principals.contains name) = true ↔
      (c.checksPrincipals policy = true → c.principals = [] ∨ name ∈ c.principals) := by
    simp only [Bool.and_eq_true, Bool.not_eq_true', and_assoc, not_and, List.contains_iff_mem,
      ← Bool.not_eq_true, List.isEmpty_iff, Decidable.or_iff_not_imp_left, Decidable.not_not]
  unfold invalidity?
  constructor
  · intro h
    split at h
    · cases h
    · next hbefore =>
      split at h
      · cases h
      · next hafter =>
        split at h
        · cases h
        · next hprincipals =>
          exact ⟨hexpired.mp hbefore, hearly.mp hafter, hother.mp hprincipals⟩
  · intro h
    rw [if_neg (hexpired.mpr h.notExpired), if_neg (hearly.mpr h.started),
      if_neg (hother.mpr h.principal)]

/-! ## The three conditions -/

/-- The end of the validity lies ahead, if it has one. -/
def Unexpired (c : Certificate) (now : UInt64) : Prop := c.validBefore = 0 ∨ now < c.validBefore

/-- The validity has begun, if it has a beginning. -/
def Started (c : Certificate) (now : UInt64) : Prop := c.validAfter = 0 ∨ c.validAfter ≤ now

/-- The certificate is for the name: its principals do not matter for its type, or there are none,
or the name is one of them. -/
def Admits (c : Certificate) (policy : Policy) (name : Bytes) : Prop :=
  (c.type = .unknown ∨ c.type = .host ∧ policy.checkHostPrincipals = false) ∨
    c.principals = [] ∨ name ∈ c.principals

instance (c : Certificate) (now : UInt64) : Decidable (c.Unexpired now) :=
  inferInstanceAs (Decidable (_ ∨ _))

instance (c : Certificate) (now : UInt64) : Decidable (c.Started now) :=
  inferInstanceAs (Decidable (_ ∨ _))

instance (c : Certificate) (policy : Policy) (name : Bytes) : Decidable (c.Admits policy name) :=
  inferInstanceAs (Decidable (_ ∨ _))

section Conditions

variable {c : Certificate} {policy : Policy} {name : Bytes} {now : UInt64}

theorem checksPrincipals_eq_false_iff :
    c.checksPrincipals policy = false ↔
      c.type = .unknown ∨ c.type = .host ∧ policy.checkHostPrincipals = false := by
  unfold checksPrincipals
  cases c.type <;> simp

theorem admits_iff :
    c.Admits policy name ↔
      (c.checksPrincipals policy = true → c.principals = [] ∨ name ∈ c.principals) := by
  rw [Admits, ← checksPrincipals_eq_false_iff, ← Bool.not_eq_true, Decidable.imp_iff_not_or]

theorem validFor_iff :
    c.ValidFor policy name now ↔ c.Unexpired now ∧ c.Started now ∧ c.Admits policy name := by
  rw [admits_iff]
  constructor
  · intro h
    exact ⟨h.notExpired, h.started, h.principal⟩
  · intro h
    obtain ⟨hend, hstart, hname⟩ := h
    exact ⟨hend, hstart, hname⟩

/-- The first condition that fails is the reason. -/
theorem invalidity?_eq (c : Certificate) (policy : Policy) (name : Bytes) (now : UInt64) :
    c.invalidity? policy name now =
      if ¬ c.Unexpired now then some .expired
      else if ¬ c.Started now then some .notYetValid
      else if ¬ c.Admits policy name then some (.otherPrincipals name c.principals)
      else none := by
  have hend : ¬ c.Unexpired now ↔ c.validBefore ≠ 0 ∧ c.validBefore ≤ now := by
    rw [Unexpired, not_or, UInt64.not_lt]
  have hstart : ¬ c.Started now ↔ c.validAfter ≠ 0 ∧ now < c.validAfter := by
    rw [Started, not_or, UInt64.not_le]
  have hname : ¬ c.Admits policy name ↔
      (c.checksPrincipals policy && !c.principals.isEmpty && !c.principals.contains name) =
        true := by
    simp only [admits_iff, Bool.and_eq_true, Bool.not_eq_true', ← Bool.not_eq_true,
      List.isEmpty_iff, List.contains_iff_mem, Classical.not_imp, not_or, and_assoc]
  simp only [invalidity?, hend, hstart, hname]

theorem invalidity?_eq_some_iff {reason : Invalidity} :
    c.invalidity? policy name now = some reason ↔
      ¬ c.Unexpired now ∧ reason = .expired ∨
        c.Unexpired now ∧ ¬ c.Started now ∧ reason = .notYetValid ∨
        c.Unexpired now ∧ c.Started now ∧ ¬ c.Admits policy name ∧
          reason = .otherPrincipals name c.principals := by
  rw [invalidity?_eq]
  by_cases hend : c.Unexpired now
  · by_cases hstart : c.Started now
    · by_cases hname : c.Admits policy name
      · simp [hend, hstart, hname]
      · simp [hend, hstart, hname, eq_comm]
    · simp [hend, hstart, eq_comm]
  · simp [hend, eq_comm]

/-- The reason in words. -/
theorem message_invalidity?_eq (c : Certificate) (policy : Policy) (name : Bytes) (now : UInt64) :
    (c.invalidity? policy name now).map Invalidity.message =
      if ¬ c.Unexpired now then some (ascii "Certificate has expired")
      else if ¬ c.Started now then some (ascii "Certificate is not yet valid")
      else if ¬ c.Admits policy name then
        some (ascii "Username \"" ++ name ++ ascii "\" not in certificate principals: "
          ++ (ascii ", ").intercalate c.principals)
      else none := by
  rw [invalidity?_eq, apply_ite (Option.map Invalidity.message),
    apply_ite (Option.map Invalidity.message), apply_ite (Option.map Invalidity.message)]
  rfl

/-! ## More time, names and policies -/

theorem Unexpired.earlier {t : UInt64} (h : c.Unexpired now) (ht : t ≤ now) : c.Unexpired t :=
  h.imp_right fun hbefore => UInt64.lt_of_le_of_lt ht hbefore

theorem Started.later {t : UInt64} (h : c.Started now) (ht : now ≤ t) : c.Started t :=
  h.imp_right fun hafter => UInt64.le_trans hafter ht

/-- More principals admit no fewer names, unless there were none. -/
theorem Admits.more {principals : List Bytes} (h : c.Admits policy name)
    (hsome : c.principals ≠ []) (hmore : c.principals ⊆ principals) :
    ({ c with principals } : Certificate).Admits policy name :=
  h.imp_right fun hlisted => .inr (hmore (hlisted.resolve_left hsome))

/-- Only which names are listed matters. -/
theorem admits_congr {principals : List Bytes} (h : ∀ p, p ∈ principals ↔ p ∈ c.principals) :
    ({ c with principals } : Certificate).Admits policy name ↔ c.Admits policy name := by
  have hnone : principals = [] ↔ c.principals = [] := by
    rw [List.eq_nil_iff_forall_not_mem, List.eq_nil_iff_forall_not_mem]
    exact forall_congr' fun p => not_congr (h p)
  simp only [Admits, hnone, h]

/-- A policy that asks for more admits no more. -/
theorem Admits.lenient (h : c.Admits { policy with checkHostPrincipals := true } name) :
    c.Admits { policy with checkHostPrincipals := false } name := by
  rcases h with (hunknown | ⟨-, hon⟩) | hlisted
  · exact .inl (.inl hunknown)
  · cases hon
  · exact .inr hlisted

end Conditions

/-! ## The verdict -/

/-- A certificate is valid exactly if all three conditions hold, and otherwise the first that fails
is the reason, also in words, the last one with all principals as they stand. So it is valid in one
interval of time, the same principals in another order or number make no difference, more of them
admit no fewer names unless there were none, and looking at those of host certificates admits no
more. What cannot be decoded is not valid, for the reason why not. -/
theorem invalidity?_decides (policy : Policy) (name : Bytes) :
    (∀ (c : Certificate) (now : UInt64),
      (c.invalidity? policy name now = none ↔
        c.Unexpired now ∧ c.Started now ∧ c.Admits policy name) ∧
      (∀ reason, c.invalidity? policy name now = some reason ↔
        ¬ c.Unexpired now ∧ reason = .expired ∨
          c.Unexpired now ∧ ¬ c.Started now ∧ reason = .notYetValid ∨
          c.Unexpired now ∧ c.Started now ∧ ¬ c.Admits policy name ∧
            reason = .otherPrincipals name c.principals) ∧
      (Invalidity.otherPrincipals name c.principals).message =
        ascii "Username \"" ++ name ++ ascii "\" not in certificate principals: "
          ++ (ascii ", ").intercalate c.principals ∧
      (c.invalidity? policy name now).map Invalidity.message =
        if ¬ c.Unexpired now then some (ascii "Certificate has expired")
        else if ¬ c.Started now then some (ascii "Certificate is not yet valid")
        else if ¬ c.Admits policy name then
          some (ascii "Username \"" ++ name ++ ascii "\" not in certificate principals: "
            ++ (ascii ", ").intercalate c.principals)
        else none) ∧
    (∀ (c : Certificate) (first now last : UInt64), first ≤ now → now ≤ last →
      c.invalidity? policy name first = none → c.invalidity? policy name last = none →
        c.invalidity? policy name now = none) ∧
    (∀ (c : Certificate) (principals : List Bytes) (now : UInt64),
      (∀ p, p ∈ principals ↔ p ∈ c.principals) →
        (({ c with principals } : Certificate).invalidity? policy name now = none ↔
          c.invalidity? policy name now = none)) ∧
    (∀ (c : Certificate) (principals : List Bytes) (now : UInt64),
      c.principals ≠ [] → c.principals ⊆ principals → c.invalidity? policy name now = none →
        ({ c with principals } : Certificate).invalidity? policy name now = none) ∧
    (∀ (c : Certificate) (now : UInt64),
      c.invalidity? { policy with checkHostPrincipals := true } name now = none →
        c.invalidity? { policy with checkHostPrincipals := false } name now = none) ∧
    ∀ (e : Error) (now : UInt64),
      (decodedInvalidity? (.error e) policy name now).map Invalidity.message = some e.message := by
  have hvalid (c : Certificate) (policy : Policy) (now : UInt64) :
      c.invalidity? policy name now = none ↔
        c.Unexpired now ∧ c.Started now ∧ c.Admits policy name :=
    invalidity?_eq_none_iff.trans validFor_iff
  refine ⟨fun c now => ⟨hvalid c policy now, fun reason => invalidity?_eq_some_iff, rfl,
    message_invalidity?_eq c policy name now⟩, ?_, ?_, ?_, ?_, fun e now => rfl⟩
  · intro c first now last hfirst hlast hvalidFirst hvalidLast
    obtain ⟨-, hstart, hname⟩ := (hvalid c policy first).mp hvalidFirst
    obtain ⟨hend, -, -⟩ := (hvalid c policy last).mp hvalidLast
    exact (hvalid c policy now).mpr ⟨hend.earlier hlast, hstart.later hfirst, hname⟩
  · intro c principals now hsame
    rw [hvalid, hvalid, admits_congr hsame]
    rfl
  · intro c principals now hsome hmore hbefore
    obtain ⟨hend, hstart, hname⟩ := (hvalid c policy now).mp hbefore
    exact (hvalid _ policy now).mpr ⟨hend, hstart, hname.more hsome hmore⟩
  · intro c now hstrict
    obtain ⟨hend, hstart, hname⟩ := (hvalid c _ now).mp hstrict
    exact (hvalid c _ now).mpr ⟨hend, hstart, hname.lenient⟩

/-- A host certificate for two names that is valid from 10 to 19. -/
def shortLived : Certificate where
  algorithm := ascii "ssh-ed25519-cert-v01@openssh.com"
  nonce := []
  keyMaterial := []
  serial := 0
  type := .host
  typeCode := 2
  keyId := []
  principals := [ascii "a.net", ascii "b.net"]
  validAfter := 10
  validBefore := 20
  criticalOptions := .empty
  extensions := .empty
  reserved := []
  signatureKey := []
  signature := []

/-- It is valid at both ends of its time and so between them, for its first name also when the names
are turned round, repeated or more, and if they are not looked at. -/
theorem invalidity?_decides_shortLived :
    let strict : Policy := ⟨true⟩
    let name := ascii "a.net"
    let turned := [ascii "b.net", name, ascii "b.net"]
    shortLived.invalidity? strict name 9 = some .notYetValid ∧
      shortLived.invalidity? strict name 10 = none ∧
      shortLived.invalidity? strict name 15 = none ∧
      shortLived.invalidity? strict name 19 = none ∧
      shortLived.invalidity? strict name 20 = some .expired ∧
      (∀ p, p ∈ turned ↔ p ∈ shortLived.principals) ∧
      { shortLived with principals := turned }.invalidity? strict name 15 = none ∧
      shortLived.principals ≠ [] ∧ shortLived.principals ⊆ ascii "c.net" :: turned ∧
      { shortLived with principals := ascii "c.net" :: turned }.invalidity? strict name 15 =
        none ∧
      shortLived.invalidity? ⟨false⟩ name 15 = none := by
  intro strict name turned
  obtain ⟨hreason, hinterval, hturned, hmore, hlenient, -⟩ := invalidity?_decides strict name
  have hfirst : shortLived.invalidity? strict name 10 = none := by decide
  have hlast : shortLived.invalidity? strict name 19 = none := by decide
  have hnow := hinterval shortLived 10 15 19 (by decide) (by decide) hfirst hlast
  have hsame : ∀ p, p ∈ turned ↔ p ∈ shortLived.principals := by
    simp [turned, name, shortLived, or_comm]
  have hsome : shortLived.principals ≠ [] := List.cons_ne_nil _ _
  have hincluded : shortLived.principals ⊆ ascii "c.net" :: turned := by
    intro p hp
    exact List.mem_cons_of_mem _ ((hsame p).mpr hp)
  refine ⟨?_, hfirst, hnow, hlast, ?_, hsame, (hturned shortLived turned 15 hsame).mpr hnow, hsome,
    hincluded, hmore shortLived _ 15 hsome hincluded hnow, hlenient shortLived 15 hnow⟩
  · exact ((hreason shortLived 9).2.1 _).mpr (.inr (.inl ⟨by decide, by decide, rfl⟩))
  · exact ((hreason shortLived 20).2.1 _).mpr (.inl ⟨by decide, rfl⟩)

end SshCert.Certificate

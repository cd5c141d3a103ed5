import SshCert.Inspector.Report
import SshCert.Proofs.Certificate.Validity

/-
  What the inspector's checks amount to.
  `Passes` collects what a certificate has to fulfil for everything that the command asks for. The
  inspector makes all checks, whatever the earlier ones said, and a certificate that decodes ends
  it with 0 if it passes and with 2 if it does not (`exitCode_eq_zero_iff`, `exitCode_eq_two`).
-/

namespace SshCert.Inspector

variable {s : Suite} {cmd : Command} {files : Files} {now : UInt64} {file blob : Bytes}
  {key? : Option Bytes} {c : Certificate}

/-! ## One check -/

theorem Check.trust_passed_iff :
    (Check.trust s cmd c).passed = true ↔
      cmd.trusted = [] ∨ c.authorityFingerprint s ∈ cmd.trusted := by
  have hcondition :
      (cmd.trusted.isEmpty || cmd.trusted.contains (c.authorityFingerprint s)) = true ↔
        cmd.trusted = [] ∨ c.authorityFingerprint s ∈ cmd.trusted := by
    rw [Bool.or_eq_true, List.isEmpty_iff, List.contains_iff_mem]
  rw [← hcondition]
  unfold Check.trust
  dsimp only
  split
  · next htrusted => exact iff_of_true rfl htrusted
  · next hother => exact iff_of_false Bool.false_ne_true hother

theorem Check.key_passed_iff :
    (Check.key s cmd blob key?).passed = true ↔ ∀ text ∈ key?, ∃ credential,
      (Login.Credential.load s (withoutLineEnds text) (.binary blob)).value = .ok credential := by
  cases key? with
  | none => simp [Check.key, Check.skipped]
  | some text =>
    unfold Check.key
    dsimp only
    split
    · next credential hloaded => simp [hloaded]
    · next e hrefused => simp [hrefused]

theorem Check.user_passed_iff :
    (Check.user cmd now c).passed = true ↔
      ∀ name ∈ cmd.user?, c.ValidFor cmd.policy name (cmd.now?.getD now) := by
  unfold Check.user
  cases cmd.user? with
  | none => simp [Check.skipped]
  | some name =>
    simp only [Option.mem_some_iff, forall_eq', ← Certificate.invalidity?_eq_none_iff]
    split
    · next hvalid => simp [hvalid]
    · next reason hinvalid => simp [hinvalid]

/-! ## All checks -/

/-- The certificate passes every check that the command asks for. -/
structure Passes (s : Suite) (cmd : Command) (now : UInt64) (blob : Bytes) (key? : Option Bytes)
    (c : Certificate) : Prop where
  signed : (c.verifySignature s blob).value = true
  trusted : cmd.trusted = [] ∨ c.authorityFingerprint s ∈ cmd.trusted
  matched : ∀ text ∈ key?, ∃ credential,
    (Login.Credential.load s (Check.withoutLineEnds text) (.binary blob)).value = .ok credential
  valid : ∀ name ∈ cmd.user?, c.ValidFor cmd.policy name (cmd.now?.getD now)

/-- The checks in the order in which they are shown. -/
def allChecks (s : Suite) (cmd : Command) (now : UInt64) (file blob : Bytes)
    (key? : Option Bytes) (c : Certificate) : List Check :=
  [Check.signature s cmd file blob c, Check.trust s cmd c, Check.key s cmd blob key?,
    Check.user cmd now c]

theorem allChecks_passed_iff :
    (allChecks s cmd now file blob key? c).all (·.passed) = true ↔
      Passes s cmd now blob key? c := by
  have hsignature : (Check.signature s cmd file blob c).passed =
      (c.verifySignature s blob).value := rfl
  simp only [allChecks, List.all_cons, List.all_nil, Bool.and_true, Bool.and_eq_true, hsignature,
    Check.trust_passed_iff, Check.key_passed_iff, Check.user_passed_iff]
  constructor
  · intro h
    obtain ⟨hsigned, htrusted, hmatched, hvalid⟩ := h
    exact ⟨hsigned, htrusted, hmatched, hvalid⟩
  · intro h
    exact ⟨h.signed, h.trusted, h.matched, h.valid⟩

/-! ## The files -/

/-- The certificate is found in the file that is named. -/
theorem certificate_eq_ok {data : Bytes} (hname : cmd.certificateFile? = some file)
    (hfile : files file = some data) (hdata : certificateIn data = .ok blob) :
    cmd.certificate files = .ok (file, blob) := by
  unfold Command.certificate Files.read
  rw [hname]
  dsimp only
  rw [hfile]
  show (certificateIn data).bind (fun blob => .ok (file, blob)) = .ok (file, blob)
  rw [hdata]
  rfl

/-- A file that begins like a certificate is taken whole. -/
theorem certificateIn_of_isCertificate (h : Certificate.isCertificate blob = true) :
    certificateIn blob = .ok blob := if_pos h

/-! ## The end -/

section End

variable (hcertificate : cmd.certificate files = .ok (file, blob))
  (hkey : cmd.keyText files = .ok key?) (hdecoded : Certificate.decode blob = .ok c)

include hcertificate hkey hdecoded

/-- A certificate that decodes ends the inspector by its checks. -/
theorem exitCode_run : (cmd.run s files now).exitCode =
    if (allChecks s cmd now file blob key? c).all (·.passed) then 0 else 2 := by
  unfold Command.run
  rw [hcertificate]
  dsimp only
  rw [Certificate.value_decodeLogged, hdecoded, hkey]
  rfl

theorem exitCode_eq_zero_iff :
    (cmd.run s files now).exitCode = 0 ↔ Passes s cmd now blob key? c := by
  have hpassed : (allChecks s cmd now file blob key? c).all (·.passed) = true ↔
      Passes s cmd now blob key? c := allChecks_passed_iff
  rw [exitCode_run hcertificate hkey hdecoded, ← hpassed]
  split
  · next hall => exact iff_of_true rfl hall
  · next hsome => exact iff_of_false (by decide) hsome

/-- There is no other end once the certificate is decoded and the files are read. -/
theorem exitCode_eq_two (hnonzero : (cmd.run s files now).exitCode ≠ 0) :
    (cmd.run s files now).exitCode = 2 := by
  rw [exitCode_run hcertificate hkey hdecoded] at hnonzero ⊢
  split at hnonzero
  · exact absurd rfl hnonzero
  · next hsome => exact if_neg hsome

theorem exitCode_eq_two_iff :
    (cmd.run s files now).exitCode = 2 ↔ ¬ Passes s cmd now blob key? c := by
  have hzero : (cmd.run s files now).exitCode = 0 ↔ Passes s cmd now blob key? c :=
    exitCode_eq_zero_iff hcertificate hkey hdecoded
  rw [← hzero]
  constructor
  · intro htwo
    rw [htwo]
    decide
  · exact exitCode_eq_two hcertificate hkey hdecoded

end End

end SshCert.Inspector

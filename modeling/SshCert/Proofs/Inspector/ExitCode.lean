import SshCert.Proofs.Certificate.TextLine
import SshCert.Proofs.Inspector.Agreement
import SshCert.Proofs.Key.File

/-
  The exit code of the inspector.
  `run_exitCode` says what each code means once the files can be read: 0 that the certificate
  passes everything that is asked, 2 that it decodes and does not pass, 1 that it does not decode.
  What is asked is one conjunction, so no check can make up for another one. The code depends on
  the certificate and on nothing else in its file: one that stands in a text behind its algorithm
  ends the inspector like the file with its bytes.
-/

namespace SshCert.Inspector

open Certificate (decode isCertificate)

variable {s : Suite} {cmd cmd' : Command} {files files' : Files} {now : UInt64}
  {file file' blob : Bytes} {key? : Option Bytes} {c : Certificate}

/-! ## What each code means -/

/-- The command finds the certificate and, where it gets so far, the private key file. -/
structure Reads (cmd : Command) (files : Files) (blob : Bytes) (key? : Option Bytes) : Prop where
  certificate : ∃ file, cmd.certificate files = .ok (file, blob)
  key : ∀ c, decode blob = .ok c → cmd.keyText files = .ok key?

theorem exitCode_of_error {e : Certificate.Error}
    (hcertificate : cmd.certificate files = .ok (file, blob)) (hdecoded : decode blob = .error e) :
    (cmd.run s files now).exitCode = 1 := by
  unfold Command.run
  rw [hcertificate]
  dsimp only
  rw [Certificate.value_decodeLogged, hdecoded]

theorem run_of_noKey {why : Failure} (hcertificate : cmd.certificate files = .ok (file, blob))
    (hdecoded : decode blob = .ok c) (hkey : cmd.keyText files = .error why) :
    ∃ output, cmd.run s files now = .failed output why := by
  unfold Command.run
  rw [hcertificate]
  dsimp only
  rw [Certificate.value_decodeLogged, hdecoded, hkey]
  exact ⟨_, rfl⟩

/-- Without the files there is no verdict. -/
theorem run_of_not_reads (h : ¬ ∃ blob key?, Reads cmd files blob key?) :
    ∃ output why, cmd.run s files now = .failed output why := by
  cases hcertificate : cmd.certificate files with
  | error why =>
    refine ⟨[], why, ?_⟩
    unfold Command.run
    rw [hcertificate]
  | ok found =>
    obtain ⟨file, blob⟩ := found
    cases hdecoded : decode blob with
    | error e =>
      refine absurd ⟨blob, none, ⟨file, hcertificate⟩, fun c hc => ?_⟩ h
      rw [hdecoded] at hc
      cases hc
    | ok c =>
      cases hkey : cmd.keyText files with
      | error why =>
        obtain ⟨output, hrun⟩ : ∃ output, cmd.run s files now = .failed output why :=
          run_of_noKey hcertificate hdecoded hkey
        exact ⟨output, why, hrun⟩
      | ok key? => exact absurd ⟨blob, key?, ⟨file, hcertificate⟩, fun _ _ => hkey⟩ h

/-- The three codes, by what the certificate is. -/
theorem Reads.exitCode_iff (h : Reads cmd files blob key?) (s : Suite) (now : UInt64) :
    ((cmd.run s files now).exitCode = 0 ↔
        ∃ c, decode blob = .ok c ∧ Passes s cmd now blob key? c) ∧
      ((cmd.run s files now).exitCode = 2 ↔
        ∃ c, decode blob = .ok c ∧ ¬ Passes s cmd now blob key? c) ∧
      ((cmd.run s files now).exitCode = 1 ↔ ∃ e, decode blob = .error e) := by
  obtain ⟨file, hcertificate⟩ := h.certificate
  cases hdecoded : decode blob with
  | error e =>
    rw [exitCode_of_error hcertificate hdecoded]
    simp
  | ok c =>
    have hkey := h.key c hdecoded
    have hzero : (cmd.run s files now).exitCode = 0 ↔ Passes s cmd now blob key? c :=
      exitCode_eq_zero_iff hcertificate hkey hdecoded
    have htwo : (cmd.run s files now).exitCode = 2 ↔ ¬ Passes s cmd now blob key? c :=
      exitCode_eq_two_iff hcertificate hkey hdecoded
    simp only [Except.ok.injEq, exists_eq_left', reduceCtorEq, exists_false, iff_false]
    refine ⟨hzero, htwo, fun hone => ?_⟩
    rw [hone] at hzero htwo
    exact absurd (htwo.mpr (mt hzero.mpr (by decide))) (by decide)

/-! ## Certificates in a text file -/

/-- The first line of the text is the algorithm, a space, the data in base64, and nothing else or
a space and a comment. -/
def BeginsWithLine (text algorithm data : Bytes) : Prop :=
  ∃ encoded comment,
    (encoded = Base64.encode data ∨ encoded = Base64.encodeUnpadded data) ∧
      (comment = [] ∨ ∃ words, comment = 0x20 :: words) ∧
      text.takeWhile (· != 0x0a) = algorithm ++ 0x20 :: (encoded ++ comment)

/-- Such a line by its fields: nothing in front and one space between the tokens. -/
def writtenLine (algorithm encoded comment : Bytes) : Certificate.TextLine :=
  ⟨[], algorithm, [0x20], encoded, comment, []⟩

theorem framed_writtenLine {algorithm encoded comment : Bytes} (h : Text.Separated comment) :
    (writtenLine algorithm encoded comment).Framed where
  lead := nofun
  gap_ne_nil := List.cons_ne_nil _ _
  gap_separated := (by decide : Text.Separated [0x20])
  gap := (by decide : Text.Blank [0x20])
  comment := h
  trail := nofun

/-- The text begins with a letter, like every algorithm. -/
theorem BeginsWithLine.head?_ne {text data : Bytes} {x : UInt8}
    (h : BeginsWithLine text c.algorithm data) (hdecoded : decode blob = .ok c)
    (hs : x ≠ 0x73) (he : x ≠ 0x65) : text.head? ≠ some x := by
  obtain ⟨encoded, comment, -, -, hline⟩ := h
  rw [← List.takeWhile_append_dropWhile (p := (· != 0x0a)) (l := text), hline, List.append_assoc,
    List.head?_append]
  rcases Certificate.head?_algorithm hdecoded with hletter | hletter
  · rw [hletter]
    exact fun hx => hs (Option.some.inj hx).symm
  · rw [hletter]
    exact fun hx => he (Option.some.inj hx).symm

/-- The certificate is found in the text, which does not itself begin like a certificate. -/
theorem BeginsWithLine.certificateIn {text : Bytes} (h : BeginsWithLine text c.algorithm blob)
    (hsniffed : isCertificate blob = true) (hdecoded : decode blob = .ok c)
    (hunblanked : ∀ x ∈ c.algorithm, x ∉ Text.blanks) :
    certificateIn text = .ok blob := by
  have htext : ¬ isCertificate text = true := fun hother =>
    h.head?_ne hdecoded (by decide) (by decide) (Certificate.head?_of_isCertificate hother)
  obtain ⟨encoded, comment, hencoded, hcomment, hline⟩ := h
  have halgorithm := Certificate.algorithm?_of_decode hsniffed hdecoded
  have hblob : blob ≠ [] := by
    rintro rfl
    cases hsniffed
  have hdata : Base64.decode encoded = some blob := by
    rcases hencoded with rfl | rfl
    · exact Base64.decode_encode hblob
    · exact Base64.decode_encodeUnpadded hblob
  have htoken : Text.IsToken c.algorithm :=
    Text.isToken_of_unblanked (Certificate.ne_nil_of_algorithm? halgorithm) hunblanked
  have hseparated : Text.Separated comment := by
    rcases hcomment with rfl | ⟨words, rfl⟩
    · intro x hx
      cases hx
    · intro x hx
      cases hx
      exact .head _
  have hwritten : (writtenLine c.algorithm encoded comment).text = text.takeWhile (· != 0x0a) := by
    rw [hline, Certificate.TextLine.text, writtenLine, List.append_nil]
    rfl
  have hparsed : Certificate.parseLine (text.takeWhile (· != 0x0a)) = .ok blob :=
    Certificate.parseLine_eq_ok_iff.mpr
      ⟨_, framed_writtenLine hseparated, htoken, hwritten, halgorithm, hdata⟩
  unfold Inspector.certificateIn
  rw [if_neg htext, hparsed]
  rfl

/-! ## The same certificate in two files -/

/-- Two commands that ask for the same, one of a file that holds `data` and one of a file that
holds `data'`. If one takes its own file for the private key file, so does the other. -/
structure Alike (cmd cmd' : Command) (files files' : Files) (data data' : Bytes) : Prop where
  user : cmd'.user? = cmd.user?
  now : cmd'.now? = cmd.now?
  policy : cmd'.policy = cmd.policy
  trusted : cmd'.trusted = cmd.trusted
  key : cmd'.keyText files' = cmd.keyText files ∨
    cmd.keyText files = .ok (some data) ∧ cmd'.keyText files' = .ok (some data')

namespace Sample

open Certificate.Sample

/-- A text with the certificate in its first line and a word behind it. -/
def text : Bytes :=
  (dss.algorithm ++ 0x20 :: (Base64.encode dss.blob ++ 0x20 :: ascii "ann"))
    ++ 0x0a :: ascii "none"

end Sample

end SshCert.Inspector

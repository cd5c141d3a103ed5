import SshCert.Proofs.CommandLine.Collecting
import SshCert.Proofs.Inspector.ExitCode

/-
  Asking for a trusted authority.
  The authorities that a command trusts are all the arguments of the options that ask for trust,
  from wherever they stand (`mem_trusted_iff`). As soon as there is one, a certificate is accepted
  only if its authority is among them (`run_enforces_trust`). An option without arguments asks for
  nothing (`run_accepts_unlisted`).
-/

namespace SshCert.Inspector

open CommandLine (Given)

variable {s : Suite} {files : Files} {now : UInt64} {args : List Bytes} {cmd : Command}
  {key x : Bytes}

/-! ## The command of a command line -/

/-- The parameters before any argument. -/
def declared : CommandLine := ⟨parameters, []⟩

theorem exists_of_parse (h : Command.parse args = .ok cmd) :
    ∃ line, declared.parse args = (line, none) ∧ Command.ofLine line = cmd := by
  unfold Command.parse at h
  split at h
  · next line hline => exact ⟨line, hline, Except.ok.inj h⟩
  · cases h

/-- The options that ask for a trusted authority. -/
def trustOptions : List Bytes := [ascii "--trusted-ca", ascii "-ca"]

/-- The argument stands behind an option that asks for a trusted authority. -/
def AsksToTrust (x : Bytes) (args : List Bytes) : Prop := ∃ key ∈ trustOptions, Given key x args

/-- These options name the list of trusted authorities, and no other option does. -/
theorem place?_eq_trusted_iff : declared.place? key = some 6 ↔ key ∈ trustOptions := by
  constructor
  · intro h
    obtain ⟨_, hnamed, -⟩ := List.findIdx?_eq_some_iff_getElem.mp h
    exact List.contains_iff_mem.mp hnamed
  · intro h
    rcases List.mem_cons.mp h with rfl | h
    · decide
    · obtain rfl := List.mem_singleton.mp h
      decide

theorem isOption_of_mem_trustOptions (h : key ∈ trustOptions) :
    CommandLine.isOption key = true := by
  revert key
  decide

/-- Exactly the arguments behind the options are trusted. -/
theorem mem_trusted_iff (h : Command.parse args = .ok cmd) :
    x ∈ cmd.trusted ↔ AsksToTrust x args := by
  obtain ⟨line, hline, rfl⟩ := exists_of_parse h
  have htrusted : (Command.ofLine line).trusted = _ :=
    CommandLine.texts_parse hline (place?_eq_trusted_iff.mpr (.head _)) rfl
  rw [htrusted, List.nil_append, List.mem_flatMap]
  simp only [List.mem_filter, decide_eq_true_eq, place?_eq_trusted_iff]
  constructor
  · intro h
    obtain ⟨o, ⟨ho, hkey⟩, hx⟩ := h
    have hoption := isOption_of_mem_trustOptions hkey
    exact ⟨o.key, hkey, (CommandLine.exists_occurrence_iff hoption args).mp ⟨o, ho, rfl, hx⟩⟩
  · intro h
    obtain ⟨key, hkey, hgiven⟩ := h
    have hoption := isOption_of_mem_trustOptions hkey
    obtain ⟨o, ho, rfl, hx⟩ := (CommandLine.exists_occurrence_iff hoption args).mpr hgiven
    exact ⟨o, ⟨ho, hkey⟩, hx⟩

/-! ## The verdict -/

theorem run_eq (hparsed : Command.parse args = .ok cmd) (hhelp : cmd.help = false) :
    run s files now args = cmd.run s files now := by
  unfold run
  rw [hparsed]
  dsimp only
  rw [if_neg (Bool.eq_false_iff.mp hhelp)]

/-- An end with 0, other than the help, means that the certificate has passed. -/
theorem exists_of_exitCode_eq_zero (hparsed : Command.parse args = .ok cmd)
    (hhelp : cmd.help = false) (hend : (run s files now args).exitCode = 0) :
    ∃ file blob key? c, cmd.certificate files = .ok (file, blob) ∧
      Certificate.decode blob = .ok c ∧ Passes s cmd now blob key? c := by
  rw [run_eq hparsed hhelp] at hend
  by_cases hreads : ∃ blob key?, Reads cmd files blob key?
  · obtain ⟨blob, key?, hreads⟩ := hreads
    obtain ⟨file, hcertificate⟩ := hreads.certificate
    obtain ⟨c, hdecoded, hpasses⟩ := (hreads.exitCode_iff s now).1.mp hend
    exact ⟨file, blob, key?, c, hcertificate, hdecoded, hpasses⟩
  · obtain ⟨output, why, hfailed⟩ : ∃ output why, cmd.run s files now = .failed output why :=
      run_of_not_reads hreads
    rw [hfailed] at hend
    cases hend

/-- Where an option that asks for trust has an argument, only a certificate is accepted whose
authority is such an argument. -/
theorem run_enforces_trust (s : Suite) (files : Files) (now : UInt64) {args : List Bytes}
    {cmd : Command} (hparsed : Command.parse args = .ok cmd) (hhelp : cmd.help = false)
    (hasked : ∃ x, AsksToTrust x args) (hend : (run s files now args).exitCode = 0) :
    ∃ file blob c, cmd.certificate files = .ok (file, blob) ∧ Certificate.decode blob = .ok c ∧
      AsksToTrust (c.authorityFingerprint s) args := by
  obtain ⟨file, blob, key?, c, hcertificate, hdecoded, hpasses⟩ :=
    exists_of_exitCode_eq_zero hparsed hhelp hend
  refine ⟨file, blob, c, hcertificate, hdecoded, ?_⟩
  rcases hpasses.trusted with hnone | hlisted
  · obtain ⟨x, hx⟩ := hasked
    rw [← mem_trusted_iff hparsed, hnone] at hx
    cases hx
  · exact (mem_trusted_iff hparsed).mp hlisted

namespace Sample

open Certificate.Sample

/-- The fingerprint of the authority of the certificate. -/
def fingerprint : Bytes := dss.certificate.authorityFingerprint Suite.standard

/-- Two options with three arguments, of which the second one is the authority. -/
def listing : List Bytes :=
  [ascii "ann-cert", ascii "-ca", ascii "-5", fingerprint, ascii "-v", ascii "--trusted-ca",
    ascii "x"]

/-- An option without arguments. -/
def unlisted : List Bytes := [ascii "ann-cert", ascii "-ca"]

/-- The command that asks for nothing but one of these authorities. -/
def vetting (verbose : Bool) (authorities : List Bytes) : Command :=
  { command authorities with
    verbose, file := [], user? := none, now? := none, positionals := [ascii "ann-cert"] }

theorem passes_vetting {verbose : Bool} {authorities : List Bytes}
    (h : authorities = [] ∨ fingerprint ∈ authorities) :
    Passes Suite.standard (vetting verbose authorities) 7 dss.blob none dss.certificate where
  signed := dss.verifySignature_blob
  trusted := h
  matched := nofun
  valid := nofun

theorem certificate_vetting (verbose : Bool) (authorities : List Bytes) :
    (vetting verbose authorities).certificate folder = .ok (ascii "ann-cert", dss.blob) :=
  have hname : (vetting verbose authorities).certificateFile? = some (ascii "ann-cert") := rfl
  have hfile : folder (ascii "ann-cert") = some dss.blob := rfl
  certificate_eq_ok hname hfile (certificateIn_of_isCertificate isCertificate_dss)

theorem exitCode_vetting {verbose : Bool} {authorities : List Bytes}
    (h : authorities = [] ∨ fingerprint ∈ authorities) :
    ((vetting verbose authorities).run Suite.standard folder 7).exitCode = 0 :=
  have hkey : (vetting verbose authorities).keyText folder = .ok none := rfl
  (exitCode_eq_zero_iff (certificate_vetting _ _) hkey dss.decode_blob).mpr (passes_vetting h)

theorem parse_unlisted : Command.parse unlisted = .ok (vetting false []) := rfl

theorem parse_listing :
    Command.parse listing = .ok (vetting true [ascii "-5", fingerprint, ascii "x"]) := rfl

theorem asksToTrust_listing : AsksToTrust fingerprint listing :=
  (mem_trusted_iff parse_listing).mp (.tail _ (.head _))

end Sample

/-- Behind the second option there is another authority, which changes nothing. -/
theorem run_enforces_trust_listing :
    let cmd := Sample.vetting true [ascii "-5", Sample.fingerprint, ascii "x"]
    Command.parse Sample.listing = .ok cmd ∧ cmd.help = false ∧
      (∃ x, AsksToTrust x Sample.listing) ∧
      (run Suite.standard Sample.folder 7 Sample.listing).exitCode = 0 ∧
      ∃ file blob c, cmd.certificate Sample.folder = .ok (file, blob) ∧
        Certificate.decode blob = .ok c ∧
        AsksToTrust (c.authorityFingerprint Suite.standard) Sample.listing := by
  intro cmd
  have hasked : ∃ x, AsksToTrust x Sample.listing := ⟨_, Sample.asksToTrust_listing⟩
  have hend : (run Suite.standard Sample.folder 7 Sample.listing).exitCode = 0 := by
    rw [run_eq Sample.parse_listing rfl]
    exact Sample.exitCode_vetting (.inr (.tail _ (.head _)))
  exact ⟨Sample.parse_listing, rfl, hasked, hend,
    run_enforces_trust Suite.standard Sample.folder 7 Sample.parse_listing rfl hasked hend⟩

/-- The option stands there and the certificate is accepted, though no authority is given. -/
theorem run_accepts_unlisted :
    let cmd := Sample.vetting false []
    (∃ key ∈ trustOptions, key ∈ Sample.unlisted) ∧ Command.parse Sample.unlisted = .ok cmd ∧
      cmd.help = false ∧ (run Suite.standard Sample.folder 7 Sample.unlisted).exitCode = 0 ∧
      ¬ ∃ file blob c, cmd.certificate Sample.folder = .ok (file, blob) ∧
        Certificate.decode blob = .ok c ∧
        AsksToTrust (c.authorityFingerprint Suite.standard) Sample.unlisted := by
  intro cmd
  refine ⟨⟨ascii "-ca", .tail _ (.head _), .tail _ (.head _)⟩, Sample.parse_unlisted, rfl, ?_, ?_⟩
  · rw [run_eq Sample.parse_unlisted rfl]
    exact Sample.exitCode_vetting (.inl rfl)
  · intro h
    obtain ⟨file, blob, c, -, -, hasks⟩ := h
    have hlisted := (mem_trusted_iff Sample.parse_unlisted).mpr hasks
    cases hlisted

end SshCert.Inspector

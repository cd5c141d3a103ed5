import SshCert.Proofs.Inspector.Decision
import SshCert.Proofs.Login.Query

/-
  The inspector and the server.
  A command can ask the inspector what a query asks a server: whether a user may log in with a
  certificate at a time, under a list of trusted authorities. The inspector adds up its checks and
  the server stops at the first that fails, but both decide the same (`run_agrees`): what the
  inspector asks of a user certificate is what the server vets (`passes_iff_vetted`).
-/

namespace SshCert.Inspector

open Login Wire

/-! ## The command that asks for the same -/

/-- The command asks whether the certificate in the file is valid for the user at the time and
signed by one of the authorities, and for nothing else. -/
structure Asks (cmd : Command) (files : Files) (b user : Bytes) (now : UInt64)
    (authorities : List Bytes) : Prop where
  file : ∃ name, cmd.certificateFile? = some name ∧ files name = some b
  user : cmd.user? = some user
  now : cmd.now? = some now
  trusted : cmd.trusted = authorities
  noKey : cmd.keyFile? = none

variable {s : Suite} {cmd : Command} {files : Files} {clock : UInt64} {b user : Bytes}
  {now : UInt64} {config : ServerConfig} {c : Certificate}

theorem Asks.certificate_eq (h : Asks cmd files b user now config.trusted)
    (hsniffed : Certificate.isCertificate b = true) :
    ∃ name, cmd.certificate files = .ok (name, b) := by
  obtain ⟨name, hname, hread⟩ := h.file
  exact ⟨name, certificate_eq_ok hname hread (certificateIn_of_isCertificate hsniffed)⟩

theorem Asks.keyText_eq (h : Asks cmd files b user now config.trusted) :
    cmd.keyText files = .ok none := by
  unfold Command.keyText
  rw [h.noKey]

/-- The principals of a user certificate are looked at under every policy. -/
theorem validFor_user_iff (huser : c.type = .user) (policy policy' : Certificate.Policy) :
    c.ValidFor policy user now ↔ c.ValidFor policy' user now := by
  have hsame : c.checksPrincipals policy = c.checksPrincipals policy' := by
    unfold Certificate.checksPrincipals
    rw [huser]
  constructor
  · intro h
    exact ⟨h.notExpired, h.started, fun hchecks => h.principal (hsame.trans hchecks)⟩
  · intro h
    exact ⟨h.notExpired, h.started, fun hchecks => h.principal (hsame.symm.trans hchecks)⟩

/-- What the inspector asks of a user certificate is what the server vets in a request under the
algorithm of the certificate. -/
theorem passes_iff_vetted (hasks : Asks cmd files b user now config.trusted)
    (hsome : config.trusted ≠ []) (huser : c.type = .user) (service : Bytes) (isAuth : Bool) :
    Passes s cmd clock b none c ↔
      (Server.ofConfig s config).Vetted ⟨user, service, isAuth, c.algorithm, b⟩ c now := by
  have hnow : cmd.now?.getD clock = now := by
    rw [hasks.now, Option.getD_some]
  constructor
  · intro h
    have htrusted : c.authorityFingerprint s ∈ config.trusted := by
      rcases h.trusted with hnone | hlisted
      · rw [hasks.trusted] at hnone
        exact absurd hnone hsome
      · rw [← hasks.trusted]
        exact hlisted
    have hvalid := h.valid user hasks.user
    rw [hnow] at hvalid
    exact ⟨requestNameFits_iff.mpr (.inl rfl), huser, h.signed,
      List.contains_iff_mem.mpr htrusted, (validFor_user_iff huser _ _).mp hvalid⟩
  · intro h
    have htrusted : c.authorityFingerprint s ∈ cmd.trusted := by
      rw [hasks.trusted]
      exact List.contains_iff_mem.mp h.trusted
    refine ⟨h.signed, .inr htrusted, nofun, fun name hname => ?_⟩
    obtain rfl : user = name := Option.some.inj (hasks.user.symm.trans hname)
    rw [hnow]
    exact (validFor_user_iff huser _ _).mp h.valid

/-! ## The two decisions -/

/-- For a user certificate the inspector ends with 0 exactly if the server accepts the query for
it. Otherwise it ends with 2 and the query has failed. Neither the clock nor the policies matter. -/
theorem run_agrees (s : Suite) (files : Files) (cmd : Command) (config : ServerConfig)
    (clock now : UInt64) (session : Bytes) {b user service : Bytes} {c : Certificate}
    (hasks : Asks cmd files b user now config.trusted) (hsome : config.trusted ≠ [])
    (huserFits : Fits user) (hserviceFits : Fits service) (hblobFits : Fits b)
    (hsniffed : Certificate.isCertificate b = true) (hdecoded : Certificate.decode b = .ok c)
    (huser : c.type = .user) :
    let inspected := cmd.run s files clock
    let query : Head := ⟨user, service, false, c.algorithm, b⟩
    let decided := ((Server.ofConfig s config).authenticate session query.encode now).value
    (inspected.exitCode = 0 ↔ decided.state = .succeeded) ∧
      (inspected.exitCode ≠ 0 → inspected.exitCode = 2 ∧ decided.state = .failed) := by
  intro inspected query decided
  have hfits : query.Fits :=
    ⟨huserFits, hserviceFits, Certificate.fits_algorithm hdecoded, hblobFits⟩
  obtain ⟨name, hcertificate⟩ := hasks.certificate_eq hsniffed
  have hkey := hasks.keyText_eq
  have hagree : inspected.exitCode = 0 ↔ decided.state = .succeeded := by
    rw [exitCode_eq_zero_iff hcertificate hkey hdecoded,
      Server.state_query_eq_succeeded_iff hfits rfl hsniffed hdecoded]
    exact passes_iff_vetted hasks hsome huser service false
  refine ⟨hagree, fun hnonzero => ⟨exitCode_eq_two hcertificate hkey hdecoded hnonzero, ?_⟩⟩
  exact Server.state_query_eq_failed hfits rfl hsniffed hdecoded (mt hagree.mpr hnonzero)

namespace Sample

/-- Asks whether the certificate is valid for ann and signed by one of the authorities. -/
def command (authorities : List Bytes) : Command where
  help := false
  verbose := false
  file := ascii "ann-cert"
  user? := some (ascii "ann")
  now? := some 0
  policy := {}
  trusted := authorities
  keyFile := []
  positionals := []

def folder : Files := Files.ofList [(ascii "ann-cert", Certificate.Sample.dss.blob)]

theorem asks_command (authorities : List Bytes) :
    Asks (command authorities) folder Certificate.Sample.dss.blob (ascii "ann") 0 authorities where
  file := ⟨ascii "ann-cert", rfl, rfl⟩
  user := rfl
  now := rfl
  trusted := rfl
  noKey := rfl

/-- A server that trusts only an authority without a fingerprint. -/
def strict : ServerConfig where
  trusted := [[]]

theorem not_trusted_strict :
    Certificate.Sample.dss.certificate.authorityFingerprint Suite.standard ∉ strict.trusted := by
  intro hlisted
  have hempty := List.mem_singleton.mp hlisted
  exact List.append_ne_nil_of_left_ne_nil (by decide) _ hempty

theorem not_vetted_strict {head : Head} :
    ¬ (Server.ofConfig Suite.standard strict).Vetted head Certificate.Sample.dss.certificate 0 := by
  intro hvetted
  have hlisted := List.contains_iff_mem.mp hvetted.trusted
  exact not_trusted_strict hlisted

end Sample

/-- The certificate is accepted under its authority and refused under another one, by both. -/
theorem run_agrees_dss :
    let listed := Server.Sample.config
    let query := Server.Sample.asking Certificate.Sample.dss Certificate.Sample.dss.algorithm
    ((Sample.command listed.trusted).run Suite.standard Sample.folder 7).exitCode = 0 ∧
      ((Server.ofConfig Suite.standard listed).authenticate [] query.encode 0).value.state =
        .succeeded ∧
      ((Sample.command Sample.strict.trusted).run Suite.standard Sample.folder 7).exitCode = 2 ∧
      ((Server.ofConfig Suite.standard Sample.strict).authenticate [] query.encode 0).value.state =
        .failed := by
  intro listed query
  have hfits : query.Fits := Server.Sample.fits_dss
  have hsniffed := Certificate.Sample.isCertificate_dss
  have hdecoded := Certificate.Sample.dss.decode_blob
  have hagree (config : ServerConfig) (hsome : config.trusted ≠ []) :=
    run_agrees Suite.standard Sample.folder (Sample.command config.trusted) config 7 0 []
      (Sample.asks_command _) hsome hfits.user hfits.service hfits.blob hsniffed hdecoded rfl
  obtain ⟨hlisted, -⟩ := hagree listed (List.cons_ne_nil _ _)
  obtain ⟨hother, hrefused⟩ := hagree Sample.strict (List.cons_ne_nil _ _)
  have hsucceeds : ((Server.ofConfig Suite.standard listed).authenticate [] query.encode
      0).value.state = .succeeded := congrArg Outcome.state Server.Sample.authenticate_dss
  have hfails : ((Server.ofConfig Suite.standard Sample.strict).authenticate [] query.encode
      0).value.state ≠ .succeeded := by
    rw [Ne, Server.state_query_eq_succeeded_iff hfits rfl hsniffed hdecoded]
    exact Sample.not_vetted_strict
  exact ⟨hlisted.mpr hsucceeds, hsucceeds, hrefused (mt hother.mp hfails)⟩

end SshCert.Inspector

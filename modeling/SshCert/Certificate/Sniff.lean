import SshCert.Certificate.Decode

/-
  Telling certificates from other data by their first field, and loading those that are.
-/

namespace SshCert.Certificate

/-- How long the algorithm of a certificate may be to be recognised. -/
def maxAlgorithmSize : Nat := 64

/-- The algorithm of data that begins like a certificate: with a short string that has the
certificate mark. Nothing behind it is looked at. -/
def algorithm? (b : Bytes) : Option Bytes :=
  match Wire.string b with
  | some (name, _) =>
    if name.length ≤ maxAlgorithmSize && isCertificateName name then some name else none
  | none => none

/-- Whether the data begins like a certificate. -/
def isCertificate (b : Bytes) : Bool := (algorithm? b).isSome

/-- The data if it begins like a certificate. -/
def extract? (b : Bytes) : Option Bytes := if isCertificate b then some b else none

/-- What became of loading a certificate. -/
inductive Loaded
  | notCertificate
  | invalid (e : Error)
  | ok (c : Certificate)
  deriving DecidableEq, Repr

/-- Recognises and decodes a certificate. -/
def load (b : Bytes) : Loaded :=
  if isCertificate b then
    match decode b with
    | .error e => .invalid e
    | .ok c => .ok c
  else .notCertificate

end SshCert.Certificate

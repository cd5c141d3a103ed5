import SshCert.Certificate.Basic
import SshCert.Certificate.Error

/-
  When and for whom a certificate is valid.
  The checks are made in order, the end of validity, its start, the principals, and the first
  that fails is the reason. A bound of zero is no bound and an empty list of principals admits
  every name.
-/

namespace SshCert.Certificate

/-- What a validation asks for beyond the certificate itself. -/
structure Policy where
  /-- Also look for the name among the principals of host certificates. -/
  checkHostPrincipals : Bool := false
  deriving DecidableEq, Repr

/-- Why a certificate is not valid. -/
inductive Invalidity
  | undecodable (e : Error)
  | expired
  | notYetValid
  | otherPrincipals (name : Bytes) (principals : List Bytes)
  deriving DecidableEq, Repr

/-- The reason in words. -/
def Invalidity.message : Invalidity → Bytes
  | .undecodable e => e.message
  | .expired => ascii "Certificate has expired"
  | .notYetValid => ascii "Certificate is not yet valid"
  | .otherPrincipals name principals =>
    ascii "Username \"" ++ name ++ ascii "\" not in certificate principals: "
      ++ Bytes.join (ascii ", ") principals

/-- Whether the principals of a certificate are looked at. -/
def checksPrincipals (c : Certificate) (policy : Policy) : Bool :=
  match c.type with
  | .user => true
  | .host => policy.checkHostPrincipals
  | .unknown => false

/-- Why the certificate is not valid for the name at the time; `none` if it is. -/
def invalidity? (c : Certificate) (policy : Policy) (name : Bytes) (now : UInt64) :
    Option Invalidity :=
  if c.validBefore ≠ 0 ∧ c.validBefore ≤ now then some .expired
  else if c.validAfter ≠ 0 ∧ now < c.validAfter then some .notYetValid
  else if c.checksPrincipals policy && !c.principals.isEmpty && !c.principals.contains name then
    some (.otherPrincipals name c.principals)
  else none

/-- The same for the result of decoding: what cannot be decoded is not valid. -/
def decodedInvalidity? (result : Except Error Certificate) (policy : Policy) (name : Bytes)
    (now : UInt64) : Option Invalidity :=
  match result with
  | .error e => some (.undecodable e)
  | .ok c => c.invalidity? policy name now

end SshCert.Certificate

import SshCert.Wire.Value

/-
  Public key login requests.
  A request names the user, the service, the algorithm and the key, and says whether it only
  asks if the key would do or carries a signature. The signature covers the session identifier
  and everything in front of it, so `signedSize` marks where the signed part ends.
-/

namespace SshCert.Login

/-- The number of the message. -/
def messageNumber : UInt8 := 50

/-- The name of the login method. -/
def methodName : Bytes := ascii "publickey"

/-- The service that is asked for when none is named. -/
def connectionService : Bytes := ascii "ssh-connection"

/-- The part of a request in front of the signature. -/
structure Head where
  user : Bytes
  service : Bytes
  /-- Whether a signature follows. -/
  isAuth : Bool
  algorithm : Bytes
  blob : Bytes
  deriving DecidableEq, Repr

/-- The values of the part, in the order in which they stand. -/
def Head.fields (h : Head) : List Wire.Value :=
  [.u8 messageNumber, .string h.user, .string h.service, .string methodName, .bool h.isAuth,
   .string h.algorithm, .string h.blob]

/-- The payload of the request as far as it is signed. -/
def Head.encode (h : Head) : Bytes := Wire.encodeAll h.fields

/-- Reads the part in front of the signature. -/
def Head.read : Wire.Reader Head := do
  let number ← Wire.u8
  guard (number = messageNumber)
  let user ← Wire.string
  let service ← Wire.string
  let method ← Wire.string
  guard (method = methodName)
  let isAuth ← Wire.bool
  let algorithm ← Wire.string
  let blob ← Wire.string
  return { user, service, isAuth, algorithm, blob }

/-- A request as it was received. -/
structure Request where
  head : Head
  /-- The signature blob, empty in a query. -/
  signature : Bytes
  /-- How many bytes of the payload stand in front of the signature. -/
  signedSize : Nat
  deriving DecidableEq, Repr

/-- The request in a payload; `none` if it is not a public key login request. -/
def Request.parse (payload : Bytes) : Option Request := do
  let (head, rest) ← Head.read payload
  let signedSize := payload.length - rest.length
  if head.isAuth then
    let (signature, _) ← Wire.string rest
    return { head, signature, signedSize }
  else
    return { head, signature := [], signedSize }

/-- The bytes that are signed: the session identifier as a string, then the signed part. -/
def signatureMessage (session signedPart : Bytes) : Bytes :=
  Wire.encodeAll [.string session, .bytes signedPart]

end SshCert.Login

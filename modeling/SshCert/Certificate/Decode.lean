import SshCert.Certificate.Basic
import SshCert.Certificate.Error
import SshCert.Journal.Line
import SshCert.Text.Number

/-
  Reading certificates.
  `read` takes a certificate from the front of a byte string, field by field, and names the
  first field that does not fit. `decode` drops the bytes behind it and `decodeLogged` also
  writes down what was found.
-/

namespace SshCert.Certificate

/-- Takes a part of a certificate from the front of the bytes, or names the cause. -/
abbrev Decoder (α : Type) := StateT Bytes (Except Error) α

/-- Reads a field. -/
def field {α : Type} (f : Field) (r : Wire.Reader α) : Decoder α := fun b =>
  match r b with
  | some result => .ok result
  | none => .error (.truncated f)

/-- Goes on with a value, or fails for the given cause. -/
def require {α : Type} (cause : Error) : Option α → Decoder α
  | some a => pure a
  | none => throw cause

/-- Strings taken two at a time; none may be left over. -/
def pairs? : List Bytes → Option (List (Bytes × Bytes))
  | [] => some []
  | [_] => none
  | name :: value :: r => (pairs? r).map ((name, value) :: ·)

/-- The options in a field; of two with the same name the later one stands. -/
def options? (b : Bytes) : Option OptionMap :=
  ((Wire.allStrings b).bind pairs?).map OptionMap.ofList

/-- Reads a certificate. -/
def read : Decoder Certificate := do
  let algorithm ← field .algorithm Wire.string
  let family ← require (.unsupportedAlgorithm algorithm) (Family.ofAlgorithm? algorithm)
  let nonce ← field .nonce Wire.string
  let key ← field .publicKey (Wire.strings family.fieldCount)
  let serial ← field .serial Wire.u64
  let typeCode ← field .type Wire.u32
  let keyId ← field .keyId Wire.string
  let names ← field .principals Wire.string
  let principals ← require (.truncatedEntry .principal) (Wire.allStrings names)
  let validAfter ← field .validAfter Wire.u64
  let validBefore ← field .validBefore Wire.u64
  let critical ← field .criticalOptions Wire.string
  let criticalOptions ← require (.truncatedEntry .criticalOption) (options? critical)
  let other ← field .extensions Wire.string
  let extensions ← require (.truncatedEntry .extension) (options? other)
  let reserved ← field .reserved Wire.string
  let signatureKey ← field .signatureKey Wire.string
  let signature ← field .signature Wire.string
  return {
    algorithm, nonce, keyMaterial := Wire.encodeStrings key, serial
    type := CertificateType.ofCode typeCode, typeCode, keyId, principals
    validAfter, validBefore, criticalOptions, extensions, reserved, signatureKey, signature }

/-- The certificate at the front of the bytes. -/
def decode (b : Bytes) : Except Error Certificate := (read b).map Prod.fst

/-- Decodes and logs an unsupported algorithm, bytes that are ignored, and the certificate. -/
def decodeLogged (b : Bytes) : Logged (Except Error Certificate) :=
  match read b with
  | .error (.unsupportedAlgorithm algorithm) => do
    log .debug "Unsupported certificate type: {}" [algorithm]
    return .error (.unsupportedAlgorithm algorithm)
  | .error e => return .error e
  | .ok (c, rest) => do
    if rest ≠ [] then
      log .debug "Ignoring {} bytes after certificate signature" [Text.decimal rest.length]
    log .trace "Decoded {} certificate [key id={}, serial={}]"
      [c.type.name, c.keyId, Text.decimal c.serial.toNat]
    return .ok c

theorem value_decodeLogged (b : Bytes) : (decodeLogged b).value = decode b := by
  unfold decodeLogged decode
  split
  · next h => simp [h, Except.map]
  · next h => simp [h, Except.map]
  · next c rest h => by_cases hr : rest = [] <;> simp [h, hr, Except.map]

end SshCert.Certificate

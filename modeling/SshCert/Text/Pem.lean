import SshCert.Text.Base64

/-
  PEM armour: base64 of the content in lines of 64 characters between a BEGIN and an END line
  that carry the same label.
-/

namespace SshCert.Pem

/-- The first line of the armour. -/
def beginMarker (label : Bytes) : Bytes := ascii "-----BEGIN " ++ label ++ ascii "-----"

/-- The last line of the armour. -/
def endMarker (label : Bytes) : Bytes := ascii "-----END " ++ label ++ ascii "-----"

/-- How many characters a full body line has. -/
def lineWidth : Nat := 64

/-- Ends a line. -/
def endLine (line : Bytes) : Bytes := line ++ [0x0a]

/-- The armoured text of some content. -/
def armour (label content : Bytes) : Bytes :=
  endLine (beginMarker label) ++ (Bytes.chunks lineWidth (Base64.encode content)).flatMap endLine
    ++ endLine (endMarker label)

end SshCert.Pem

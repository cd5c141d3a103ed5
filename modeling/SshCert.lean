import SshCert.Algorithm.Certified
import SshCert.Certificate.TextLine
import SshCert.Certificate.Validity
import SshCert.CommandLine.Basic
import SshCert.Digest.Basic
import SshCert.Inspector.Report
import SshCert.Journal.Logger
import SshCert.Key.Identity
import SshCert.Login.Client
import SshCert.Login.Request
import SshCert.Login.Server
import SshCert.Main
import SshCert.Primitive.Ecdsa
import SshCert.Primitive.Ed25519
import SshCert.Primitive.Rsa
import SshCert.Proofs.Login.Request
import SshCert.Proofs.Wire.Reading
import SshCert.Suite.Entropy
import SshCert.Suite.Material
import SshCert.Suite.Standard
import SshCert.Text.Console
import SshCert.Text.Pem
import SshCert.Wire.Cursor
import SshCert.Wire.Sink
import SshCert.Proofs.Certificate.Layout
import SshCert.Proofs.Certificate.Binding
import SshCert.Proofs.Algorithm.RequestName
import SshCert.Proofs.Login.Decision
import SshCert.Proofs.Login.Authorisation
import SshCert.Proofs.Key.Blob
import SshCert.Proofs.Key.Signature
import SshCert.Proofs.Key.File
import SshCert.Proofs.Login.Credential
import SshCert.Proofs.Certificate.Sniff
import SshCert.Proofs.Login.Agreement
import SshCert.Proofs.Certificate.Encoding
import SshCert.Proofs.Certificate.Truncation
import SshCert.Proofs.Login.Acceptable
import SshCert.Proofs.Key.NormalForm
import SshCert.Proofs.Login.Signing
import SshCert.Proofs.Wire.Writing
import SshCert.Proofs.Wire.Integer
import SshCert.Proofs.Inspector.Decision
import SshCert.Proofs.Inspector.Agreement
import SshCert.Proofs.Text.Base64
import SshCert.Proofs.Certificate.TextLine
import SshCert.Proofs.Key.Armour
import SshCert.Proofs.Key.Contents
import SshCert.Proofs.Suite.Loading
import SshCert.Proofs.Key.Secrecy
import SshCert.Proofs.Suite.Fault
import SshCert.Proofs.Certificate.Fingerprint
import SshCert.Proofs.Certificate.Routing
import SshCert.Proofs.Login.Pairing
import SshCert.Proofs.Wire.Run
import SshCert.Proofs.Text.Pem
import SshCert.Proofs.Key.Wrapping
import SshCert.Proofs.Suite.Wrapping
import SshCert.Proofs.Der.Reading
import SshCert.Proofs.Key.SubjectInfo
import SshCert.Proofs.Suite.Entropy
import SshCert.Proofs.Inspector.ExitCode
import SshCert.Proofs.CommandLine.Collecting
import SshCert.Proofs.Inspector.Trust
import SshCert.Proofs.CommandLine.Roles
import SshCert.Proofs.CommandLine.Usage
import SshCert.Proofs.CommandLine.Numeral
import SshCert.Proofs.Text.Placeholder

import SshCert.Key.File
import SshCert.Suite.Basic

/-
  What loading a key file gives and logs.
  A file without a key leaves the line of the cause (`Suite.loadPrivate_of_error`), a file with
  one leaves a line that the key was loaded or that its values were refused
  (`Suite.loadPrivate_of_ok`). These lines name the type of the key and its comment and no other
  value.
-/

namespace SshCert

namespace KeyFile

/-- The line for the cause why a file does not hold a key. -/
def Error.line (e : Error) : Line := ⟨.error, Text.format (ascii e.message.1) e.message.2⟩

end KeyFile

namespace Suite

/-- The line for a key that was loaded. -/
def loadedLine (type : KeyType) (comment : Bytes) : Line :=
  ⟨.debug, Text.format (ascii "Loaded {} private key [{}]") [type.name, comment]⟩

/-- The line for a key whose values were refused. -/
def refusedLine (type : KeyType) : Line :=
  ⟨.debug, Text.format (ascii "Invalid {} private key") [type.name]⟩

variable {s : Suite} {text : Bytes}

theorem loadPrivate_of_error {e : KeyFile.Error} (h : KeyFile.parse text = .error e) :
    s.loadPrivate text = ⟨{}, [e.line]⟩ := by
  unfold loadPrivate
  rw [h]
  rfl

theorem loadPrivate_of_ok {k : PrivateKey} {comment : Bytes}
    (h : KeyFile.parse text = .ok (k, comment)) :
    s.loadPrivate text =
      if s.acceptsPrivate k then ⟨⟨some k, comment⟩, [loadedLine k.type comment]⟩
      else ⟨⟨none, comment⟩, [refusedLine k.type]⟩ := by
  unfold loadPrivate
  rw [h]
  dsimp only
  rw [admitPrivate]
  split <;> rfl

end Suite

end SshCert

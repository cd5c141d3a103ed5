import SshCert.Text.Placeholder

/-
  Log lines and computations that write them.
  `Logged α` is a value together with the lines written on the way to it, in order. All lines
  are kept here; which of them are shown is decided by the loggers and consoles they reach.
-/

namespace SshCert

/-- How important a line is. -/
inductive Level
  | error
  | info
  | debug
  | verbose
  | trace
  deriving DecidableEq, Repr

/-- The word printed for a level. -/
def Level.name : Level → Bytes
  | .error => ascii "error"
  | .info => ascii "info"
  | .debug => ascii "debug"
  | .verbose => ascii "verbose"
  | .trace => ascii "trace"

/-- One line of a log. -/
structure Line where
  level : Level
  text : Bytes
  deriving DecidableEq, Repr

/-- A value and the lines written on the way to it. -/
structure Logged (α : Type) where
  value : α
  lines : List Line
  deriving DecidableEq, Repr

instance : Monad Logged where
  pure a := ⟨a, []⟩
  bind x f := ⟨(f x.value).value, x.lines ++ (f x.value).lines⟩

/-- Writes one line: the message with its placeholders replaced. -/
def log (level : Level) (message : String) (args : List Bytes) : Logged Unit :=
  ⟨(), [⟨level, Text.format (ascii message) args⟩]⟩

namespace Logged

@[simp] theorem value_pure {α : Type} (a : α) : (pure a : Logged α).value = a := rfl

@[simp] theorem lines_pure {α : Type} (a : α) : (pure a : Logged α).lines = [] := rfl

@[simp] theorem value_bind {α β : Type} (x : Logged α) (f : α → Logged β) :
    (x >>= f).value = (f x.value).value := rfl

@[simp] theorem value_ite {α : Type} (p : Prop) [Decidable p] (x y : Logged α) :
    (if p then x else y).value = if p then x.value else y.value :=
  apply_ite Logged.value p x y

@[simp] theorem lines_bind {α β : Type} (x : Logged α) (f : α → Logged β) :
    (x >>= f).lines = x.lines ++ (f x.value).lines := rfl

@[simp] theorem lines_log (level : Level) (message : String) (args : List Bytes) :
    (log level message args).lines = [⟨level, Text.format (ascii message) args⟩] := rfl

end Logged

end SshCert

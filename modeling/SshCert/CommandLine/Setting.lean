import SshCert.CommandLine.Numeral
import SshCert.Text.Number

/-
  Settings: what the parameters of a command line are set to.
  A setting knows what values it holds and how many, and takes the arguments that are given to
  its parameter. A setting that refuses its arguments may have taken some of them.
-/

namespace SshCert.CommandLine

/-- What kind of value an argument stands for. -/
inductive Kind
  | text
  | word
  | integer
  deriving DecidableEq, Repr

namespace Kind

/-- The values of a kind. -/
abbrev Value : Kind → Type
  | .text => Bytes
  | .word => UInt64
  | .integer => Int32

/-- Reads an argument; every argument is a text. -/
def read : (k : Kind) → Bytes → Reading k.Value
  | .text => fun arg => ⟨some arg, true⟩
  | .word => readWord
  | .integer => readInteger

/-- A value in help texts. -/
def print : (k : Kind) → k.Value → Bytes
  | .text => fun s => s
  | .word => fun v => Text.decimal v.toNat
  | .integer => fun v => Text.signedDecimal v.toInt

end Kind

/-- Why a command line is refused. -/
inductive Error
  | unknownParameter (key : Bytes)
  | wrongAmount (arguments : List Bytes)
  | notInterpreted (argument : Bytes)
  deriving DecidableEq, Repr

/-- The error in words, which end at a zero byte. -/
def Error.message (e : Error) : Bytes :=
  Bytes.untilNul <|
    match e with
    | .unknownParameter key => ascii "no parameter named '" ++ key ++ ascii "'"
    | .wrongAmount arguments =>
      ascii "invalid amount of arguments: [" ++ Bytes.join (ascii ",") arguments ++ ascii "]"
    | .notInterpreted argument => ascii "failed to interpret argument '" ++ argument ++ ascii "'"

/-- What a parameter is set to. -/
inductive Setting
  /-- Set by naming the parameter. -/
  | flag (on : Bool)
  /-- Always has a value, at first a default. -/
  | single (k : Kind) (value : k.Value)
  | optional (k : Kind) (value? : Option k.Value)
  /-- Collects all arguments. -/
  | list (k : Kind) (values : List k.Value)

namespace Setting

/-- Whether arguments behind the parameter belong to it. -/
def takesArguments : Setting → Bool
  | .flag _ => false
  | _ => true

/-- The values of the arguments up to the first that cannot be read, and that one. -/
def readAll (k : Kind) : List Bytes → List k.Value × Option Error
  | [] => ([], none)
  | arg :: args =>
    match (k.read arg).value? with
    | none => ([], some (.notInterpreted arg))
    | some v =>
      let (vs, error?) := readAll k args
      (v :: vs, error?)

/-- The setting after its parameter was given the arguments. -/
def accept : Setting → List Bytes → Setting × Option Error
  | .flag _, _ => (.flag true, none)
  | .single k value, [arg] =>
    let r := k.read arg
    (.single k (r.stored?.getD value), if r.complete then none else some (.notInterpreted arg))
  | .optional k value?, [arg] =>
    match (k.read arg).value? with
    | some v => (.optional k (some v), none)
    | none => (.optional k value?, some (.notInterpreted arg))
  | .list k values, args =>
    let (vs, error?) := readAll k args
    (.list k (values ++ vs), error?)
  | s, args => (s, some (.wrongAmount args))

/-- The setting in help texts. -/
def print : Setting → Bytes
  | .flag on => if on then ascii "true" else ascii "false"
  | .single k value => k.print value
  | .optional k value? => (value?.map k.print).getD []
  | .list k values => Bytes.join (ascii ", ") (values.map k.print)

end Setting

end SshCert.CommandLine

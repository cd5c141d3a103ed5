import SshCert.CommandLine.Setting

/-
  Command lines: named parameters with their arguments, and positional arguments.
  An argument that looks like an option names a parameter; those up to the next one are its
  arguments. Behind a flag, and in front of the first option, stand positional arguments.
  Parsing stops at the first error and keeps what was set until then.
-/

namespace SshCert

namespace CommandLine

/-- A parameter and what it is set to; either name may be empty. -/
structure Parameter where
  name : Bytes
  short : Bytes
  info : Bytes
  setting : Setting

/-- The options that name a parameter. -/
def Parameter.keys (p : Parameter) : List Bytes :=
  (if p.name.isEmpty then [] else [ascii "--" ++ p.name])
    ++ (if p.short.isEmpty then [] else [ascii "-" ++ p.short])

/-- Whether the option names the parameter. -/
def Parameter.isNamed (p : Parameter) (key : Bytes) : Bool := p.keys.contains key

/-- An option and the arguments behind it. -/
structure Occurrence where
  key : Bytes
  arguments : List Bytes
  deriving DecidableEq, Repr

/-- Whether an argument looks like an option: a dash and more, unless it may be a number. -/
def isOption : Bytes → Bool
  | 0x2d :: c :: _ => !isDigit c
  | _ => false

/-- The arguments before the first option, and every option with those behind it. -/
def split : List Bytes → List Bytes × List Occurrence
  | [] => ([], [])
  | a :: r =>
    let (front, occurrences) := split r
    if isOption a then ([], ⟨a, front⟩ :: occurrences) else (a :: front, occurrences)

end CommandLine

/-- Declared parameters, an earlier one going before a later one with the same option, and the
positional arguments. -/
structure CommandLine where
  parameters : List CommandLine.Parameter
  positionals : List Bytes := []

namespace CommandLine

/-- The parameter that an option names. -/
def parameter? (c : CommandLine) (key : Bytes) : Option Parameter :=
  c.parameters.find? (·.isNamed key)

/-- Gives its arguments to the parameter that an option names. -/
def give (c : CommandLine) (o : Occurrence) : CommandLine × Option Error :=
  match c.parameters.span (!·.isNamed o.key) with
  | (_, []) => (c, some (.unknownParameter o.key))
  | (before, p :: after) =>
    let (own, others) := if p.setting.takesArguments then (o.arguments, []) else ([], o.arguments)
    let (setting, error?) := p.setting.accept own
    (⟨before ++ { p with setting := setting } :: after, c.positionals ++ others⟩, error?)

/-- Gives the arguments of one option after the other, up to the first error. -/
def giveAll (c : CommandLine) : List Occurrence → CommandLine × Option Error
  | [] => (c, none)
  | o :: r =>
    match c.give o with
    | (next, none) => next.giveAll r
    | failed => failed

/-- The command line after the arguments, or at the first error. -/
def parse (c : CommandLine) (args : List Bytes) : CommandLine × Option Error :=
  let (front, occurrences) := split args
  { c with positionals := c.positionals ++ front }.giveAll occurrences

/-! ## Settings by name -/

/-- The setting of a parameter. -/
def setting? (c : CommandLine) (name : String) : Option Setting :=
  (c.parameter? (ascii "--" ++ ascii name)).map (·.setting)

/-- Whether a flag is set. -/
def flag (c : CommandLine) (name : String) : Bool :=
  match c.setting? name with
  | some (.flag on) => on
  | _ => false

/-- The text of a parameter. -/
def text (c : CommandLine) (name : String) : Bytes :=
  match c.setting? name with
  | some (.single .text s) => s
  | _ => []

/-- The text of an optional parameter. -/
def text? (c : CommandLine) (name : String) : Option Bytes :=
  match c.setting? name with
  | some (.optional .text s?) => s?
  | _ => none

/-- The word of an optional parameter. -/
def word? (c : CommandLine) (name : String) : Option UInt64 :=
  match c.setting? name with
  | some (.optional .word v?) => v?
  | _ => none

/-- The texts that a parameter has collected. -/
def texts (c : CommandLine) (name : String) : List Bytes :=
  match c.setting? name with
  | some (.list .text l) => l
  | _ => []

/-! ## Help -/

/-- The line on a parameter: its names in a column of fixed width, what it is for, its value. -/
def helpLine (key : Bytes) (p : Parameter) : Bytes :=
  let names := key ++ (if p.short.isEmpty then [] else ascii ", -" ++ p.short)
  let value := p.setting.print
  ascii "  " ++ names.rightpad 36 0x20 ++ ascii " " ++ p.info
    ++ (if value.isEmpty then [] else ascii " (" ++ value ++ ascii ")") ++ ascii "\n"

/-- A line for every option with two dashes, in the order of the options. -/
def help (c : CommandLine) : Bytes :=
  let keys := (c.parameters.flatMap Parameter.keys).filter (ascii "--").isPrefixOf
  (keys.eraseDups.mergeSort (· ≤ ·)).flatMap fun key =>
    ((c.parameter? key).map (helpLine key)).getD []

end CommandLine

end SshCert

import SshCert.Journal.Line

/-
  Loggers: a memory that keeps lines, sessions in front of it that tag them, and the form of a
  line on the console. Each logger has a set of levels and passes on a line only if the line's
  own set of levels meets it.
-/

namespace SshCert

/-- A set of levels, one bit each, `error` lowest. -/
abbrev Levels := BitVec 5

/-- The bit of a level. -/
def Level.bit : Level → Levels
  | .error => 1
  | .info => 2
  | .debug => 4
  | .verbose => 8
  | .trace => 16

namespace Levels

/-- Every level. -/
def all : Levels := 31

/-- Whether the sets have a level in common. -/
def meets (a b : Levels) : Bool := a &&& b != 0

/-- The word for a set that is a single level; all others share one word. -/
def name (s : Levels) : Bytes :=
  match [Level.error, .info, .debug, .verbose, .trace].find? (·.bit == s) with
  | some l => l.name
  | none => ascii "unknown"

end Levels

/-- A logger that puts its tag in front of every line and hands the line on. -/
structure Session where
  tag : Bytes
  levels : Levels := Levels.all
  deriving DecidableEq, Repr

/-- A logger that keeps its lines. -/
structure Memory where
  levels : Levels
  lines : List Bytes := []
  deriving DecidableEq, Repr

namespace Memory

/-- The memory after a line that has come through the sessions, outermost first. -/
def accept (m : Memory) (levels : Levels) (text : Bytes) : List Session → Memory
  | [] => if levels.meets m.levels then { m with lines := m.lines ++ [text] } else m
  | s :: inner => if levels.meets s.levels then m.accept levels (s.tag ++ text) inner else m

/-- Whether `pat` stands in one of the lines. -/
def contains (m : Memory) (pat : Bytes) : Bool := m.lines.any (Bytes.occurs pat)

end Memory

/-- A memory behind sessions, outermost first. -/
structure Logger where
  memory : Memory
  sessions : List Session := []
  deriving DecidableEq, Repr

namespace Logger

/-- The levels of the logger that a line meets first. -/
def levels (l : Logger) : Levels :=
  match l.sessions with
  | [] => l.memory.levels
  | s :: _ => s.levels

/-- Hands a line to the outermost logger. -/
def line (l : Logger) (levels : Levels) (text : Bytes) : Logger :=
  { l with memory := l.memory.accept levels text l.sessions }

/-- Sets the levels of the outermost logger. -/
def setLevels (l : Logger) (levels : Levels) : Logger :=
  match l.sessions with
  | [] => { l with memory := { l.memory with levels := levels } }
  | s :: inner => { l with sessions := { s with levels := levels } :: inner }

end Logger

/-- What a console that shows `shown` prints for a line; the text ends at a zero byte. -/
def consoleLine (shown levels : Levels) (text : Bytes) : Bytes :=
  if levels.meets shown then
    ascii "[" ++ levels.name ++ ascii "] " ++ Bytes.untilNul text ++ ascii "\n"
  else []

end SshCert

import ExprGraph.Store.Linking
import ExprGraph.Text.Lines
/-!
  The log.

  A logger has a level and decides by it alone which messages become records (`LogLevel.admits`).  Records
  go to the console and to a file, as far as these are attached.  The console is attached when a logger is
  configured at any level but `silent`; changing the level later changes nothing about that.  Each
  configuration starts over, and one with a file starts a new file.

  There is no logger at first.  The first use makes one at the level `moderate`.

  The console is the handler for standard output, as a configuration attaches it.  Where nothing at all is
  attached, a host may still write the bare text of a warning or a failure to its error stream; that is no
  record of a logger, and is left out here.  So is a log file that cannot be opened.
-/

namespace ExprGraph

/-- How much is logged. -/
inductive LogLevel where
  | silent
  | minimal
  | moderate
  | detailed
  | verbose
  deriving DecidableEq

namespace LogLevel

/-- All levels, quietest first. -/
def all : List LogLevel := [.silent, .minimal, .moderate, .detailed, .verbose]

/-- The number of a level. -/
def number : LogLevel → Nat
  | silent => 0
  | minimal => 1
  | moderate => 2
  | detailed => 3
  | verbose => 4

/-- The name of a level. -/
def name : LogLevel → String
  | silent => "SILENT"
  | minimal => "MINIMAL"
  | moderate => "MODERATE"
  | detailed => "DETAILED"
  | verbose => "VERBOSE"

/-- The level of a name. -/
def ofName? (name : String) : Option LogLevel := all.find? fun l => l.name == name

end LogLevel

/-- What is said to a logger. -/
inductive Message where
  /-- something failed -/
  | critical (text : String)
  | warning (text : String)
  /-- information for a level and those above it -/
  | info (text : String) (required : LogLevel)
  | debug (text : String)

/-- A written message: the word for its weight, and its text. -/
structure Record where
  word : String
  text : String
  deriving DecidableEq

namespace Record

/-- The line of a record. -/
def line (r : Record) : String := r.word ++ " - " ++ r.text

end Record

/-- **The messages a level admits.** -/
def LogLevel.admits (l : LogLevel) : Message → Bool
  | .critical _ => l != .silent
  | .warning _ => decide (LogLevel.minimal.number ≤ l.number)
  | .info _ required => decide (required.number ≤ l.number)
  | .debug _ => decide (LogLevel.verbose.number ≤ l.number)

/-- The record of a message. -/
def Message.record : Message → Record
  | .critical text => ⟨"ERROR", "CRITICAL: " ++ text⟩
  | .warning text => ⟨"WARNING", text⟩
  | .info text _ => ⟨"INFO", text⟩
  | .debug text => ⟨"DEBUG", "DEBUG: " ++ text⟩

/-- A remark on a change of the store as a message. -/
def Note.message (n : Note) : Message :=
  match n with
  | .copied .. => .debug n.text
  | .inert .. => .warning n.text

/-- A configured logger. -/
structure Logger where
  level : LogLevel
  /-- records go to the console -/
  console : Bool
  /-- records go to the most recent file -/
  toFile : Bool

namespace Logger

/-- Number of places records go to. -/
def outlets (l : Logger) : Nat := l.console.toNat + l.toFile.toNat

/-- A logger at the given level. -/
def configured (level : LogLevel) (toFile : Bool) : Logger := ⟨level, level != .silent, toFile⟩

end Logger

/-- A log file. -/
structure LogFile where
  name : String
  /-- the records, latest first -/
  records : List Record

/-- **The lines of a log file.**  Every record ends its line, and may hold line ends of its own. -/
def LogFile.lines (f : LogFile) : List String :=
  Text.lines (String.join (f.records.reverse.map fun r => r.line ++ "\n"))

/-- The name of a file that was given none, with the time of the configuration in it. -/
def LogFile.defaultName (stamp : String) : String := "symbolic_expressions_" ++ stamp ++ ".log"

/-- The state of logging. -/
structure Log where
  /-- the logger in use, once there is one -/
  logger : Option Logger
  /-- the console records, latest first -/
  console : List Record
  /-- the file of the most recent configuration that had one -/
  file : Option LogFile

namespace Log

/-- Before the first use. -/
def empty : Log := ⟨none, [], none⟩

/-- The logger in use, or the one that the first use makes. -/
def current (l : Log) : Logger := l.logger.getD (.configured .moderate false)

/-- Makes sure that there is a logger. -/
def ensure (l : Log) : Log := { l with logger := some l.current }

/-- Configures a new logger, with a new file under the given name if there is one, which is taken to open. -/
def configure (l : Log) (level : LogLevel) (file : Option String) : Log :=
  { l with
    logger := some (.configured level file.isSome)
    file := match file with
      | some name => some ⟨name, []⟩
      | none => l.file }

/-- Changes the level of the logger, or makes a logger at that level. -/
def setLevel (l : Log) (level : LogLevel) : Log :=
  match l.logger with
  | some g => { l with logger := some { g with level := level } }
  | none => { l with logger := some (.configured level false) }

/-- **Says something to the logger.**  A message that is admitted becomes a record wherever one is attached,
    and in none when nothing is. -/
def say (l : Log) (m : Message) : Log :=
  let l := l.ensure
  let g := l.current
  if g.level.admits m then
    { l with
      console := if g.console then m.record :: l.console else l.console
      file := if g.toFile then l.file.map fun f => { f with records := m.record :: f.records }
        else l.file }
  else l

/-- Says several things in order. -/
def sayAll (l : Log) (ms : List Message) : Log := ms.foldl say l

/-- The console records in order, and the log without them. -/
def takeConsole (l : Log) : List Record × Log := (l.console.reverse, { l with console := [] })

end Log

end ExprGraph

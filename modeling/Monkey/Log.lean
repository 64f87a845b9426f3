/-!
# The log

A program run leaves a log beside its answers: entries in the order in which they arose, each
with a level. The settings decide afterwards which entries are shown and how; they cannot
change what was logged, nor any answer.
-/

namespace Monkey

/-- How much is shown, or how important an entry is. -/
inductive LogLevel where
  | silent
  | error
  | warning
  | info
  | debug
deriving DecidableEq, Repr

namespace LogLevel

/-- All levels, the quietest first. -/
def all : List LogLevel := [silent, error, warning, info, debug]

/-- The name of a level. -/
def name : LogLevel → String
  | silent => "SILENT"
  | error => "ERROR"
  | warning => "WARNING"
  | info => "INFO"
  | debug => "DEBUG"

/-- The rank of a level. -/
def rank : LogLevel → Nat
  | silent => 0
  | error => 3
  | warning => 6
  | info => 10
  | debug => 30

/-- Every level is listed. -/
theorem mem_all (level : LogLevel) : level ∈ all := by
  cases level <;> decide

end LogLevel

/-- What the user chose about the log and the prompt. -/
structure Settings where
  /-- Whether entries are shown with the time and their level. -/
  richFormat : Bool := false
  /-- The highest level that is shown. -/
  level : LogLevel := .warning
  /-- The text written before a line is read. -/
  prompt : String := "> "
deriving DecidableEq, Repr

namespace Settings

/-- The settings for a number of requests for more output. -/
def ofVerbosity (richFormat : Bool) (verbosity : Int) : Settings where
  richFormat := richFormat
  level := if 3 ≤ verbosity then .debug else if 1 ≤ verbosity then .info else .error

end Settings

/-- A message with its level. -/
structure LogEntry where
  level : LogLevel
  message : String
deriving DecidableEq, Repr

namespace LogEntry

/-- The start of a stage, with the name of its source where it has one. -/
def stage (name : String) (source : Option String) : LogEntry where
  level := .info
  message :=
    match source with
    | none | some "" => name ++ "..."
    | some source => name ++ " '" ++ source ++ "'"

/-- Whether an entry is shown. -/
def isShown (settings : Settings) (entry : LogEntry) : Bool :=
  decide (entry.level.rank ≤ settings.level.rank)

/-- The line of an entry, where `time` is the time to be shown. -/
def line (settings : Settings) (time : String) (entry : LogEntry) : String :=
  (if settings.richFormat then time ++ " [" ++ entry.level.name ++ "] " else "") ++
    entry.message ++ "\n"

end LogEntry

/-- The lines of the entries that are shown. -/
def renderLog (settings : Settings) (time : String) (log : List LogEntry) : String :=
  String.join ((log.filter (LogEntry.isShown settings)).map (LogEntry.line settings time))

/-- What is shown at a level is shown at every higher one. -/
theorem isShown_mono {settings settings' : Settings}
    (h : settings.level.rank ≤ settings'.level.rank) {entry : LogEntry}
    (hshown : entry.isShown settings = true) : entry.isShown settings' = true := by
  simp only [LogEntry.isShown, decide_eq_true_eq] at hshown ⊢
  exact Nat.le_trans hshown h

end Monkey

import Monkey.Command.Run
import Monkey.Converse

/-!
# A command as it happens

A command reads its input, does its work and writes what it has to say as soon as it can say it: a
dump of tokens token by token, a session line by line. A command that fails on the way leaves what it
has written before.
-/

namespace Monkey.Command

/-- The text of a task's input; an error is logged where there is none. -/
def loadInput (files : FileReader) (input : Input) : Action Abort (Option Source) :=
  match readInput files input with
  | .error abort => .fail abort
  | .ok (.error entry) => do
    .log entry
    pure none
  | .ok (.ok source) => pure (some source)

/-- The program of a task's input; an error is logged where there is none. -/
def parseInput (files : FileReader) (input : Input) (levels : Nat := Grammar.nestingLimit) :
    Action Abort (Option Node) := do
  match ← loadInput files input with
  | none => pure none
  | some source =>
    .log (.stage "Parsing" (some source.name))
    match parse source.text levels with
    | .error (.unreadable error) => .fail (.unreadable error)
    | .error (.invalid error) =>
      .log ⟨.error, source.name ++ ": error: " ++ error.message⟩
      pure none
    | .ok program =>
      .log ⟨.info, "Parsed " ++ Text.Decimal.ofNat program.children.length ++ " statement(s) from '" ++
        source.name ++ "'"⟩
      pure (some program)

/-- Print a program in the given way. -/
def printRendered (render : Node → Option String) (program : Node) : Action Abort Nat :=
  match render program with
  | some text => do
    .write (text ++ "\n")
    pure 0
  | none => do
    .log ⟨.error, "error: [MKC-0030] program nested too deeply to print"⟩
    pure 1

/-- Print the program of an input in the given way. -/
def printInput (files : FileReader) (input : Input) (render : Node → Option String)
    (levels : Nat := Grammar.nestingLimit) : Action Abort Nat := do
  match ← parseInput files input levels with
  | none => pure 1
  | some program => printRendered render program

/-- Print the tokens of a text one after the other. -/
def printTokens (includeEof : Bool) (source : Source) : Action Abort Nat := do
  .log (.stage "Lexing" (some source.name))
  let tokens := tokenize source.text
  .forEach tokens fun token =>
    if includeEof || decide (token.kind ≠ .eof) then .write (tokenLine token) else pure ()
  .log ⟨.debug, Text.Decimal.ofNat tokens.length ++ " token(s) including end of input"⟩
  .forEach (illegalWarning source.name (tokens.filter fun token => decide (token.kind = .illegal))) .log
  pure 0

/-- Carry out a task; the result is the exit status. -/
def carryOut (files : FileReader) (stdin : String) (task : Task) (limits : Limits := {}) : Action Abort Nat :=
  match task with
  | .repl => do
    .log sessionStart
    (converse (Text.normalizeNewlines stdin.toList) limits).mapError .unreadable
    pure 0
  | .tok includeEof input => do
    match ← loadInput files input with
    | none => pure 1
    | some source => printTokens includeEof source
  | .ast input => printInput files input (renderDump · limits.depth) limits.levels
  | .fmt input => printInput files input (Node.canonical? · limits.depth) limits.levels

/-- Carry out a command line on an empty console, where the clock tells the time of each line of the
log. A command line that leads to no task carries nothing out. -/
def execute (files : FileReader) (stdin : String) (clock : Nat → String) (arguments : List String)
    (limits : Limits := {}) : Except Stop (Except Abort Nat × Console) :=
  (Invocation.ofArguments arguments).map fun invocation =>
    (carryOut files stdin invocation.task limits).run ⟨invocation.settings, clock⟩ {}

end Monkey.Command

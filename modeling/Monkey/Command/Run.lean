import Monkey.Command.File
import Monkey.Command.Invocation
import Monkey.Node.Dump
import Monkey.Session
import Monkey.Text.Utf8

/-!
# Running a command

A task is carried out with the files and the standard input that it finds; it ends with an
exit status, the text of its output and a log. How much of the log is shown, and how, is the
only thing that the other options decide. Three faults end a run without an exit status: a
number whose text is not converted, a file that is not UTF-8, and a NUL in a file name.
-/

namespace Monkey.Command

/-- A fault that ends a run without an exit status. -/
inductive Abort where
  | unreadable (error : Text.NumeralError)
  | undecodable (error : Text.Utf8.DecodeError)
  | nulInFileName
deriving DecidableEq, Repr

/-- The wording of a fault. -/
def Abort.message : Abort → String
  | unreadable error => error.message
  | undecodable error => error.message
  | nulInFileName => "embedded null byte"

/-- How a task ended. -/
structure Finish where
  status : Nat
  output : String
  log : List LogEntry
deriving DecidableEq, Repr

/-- A program text and the name it is reported under. -/
structure Source where
  name : String
  text : String
deriving DecidableEq, Repr

/-- The text of a task's input, or the message that there is none. -/
def readInput (files : FileReader) : Input → Except Abort (Except LogEntry Source)
  | .expr text => .ok (.ok ⟨"<expr>", text⟩)
  | .missing => .ok (.error ⟨.error, "error: [MKC-0010] no input: pass a file or -e SOURCE"⟩)
  | .file name =>
    let path := Path.ofName name
    if name.toList.contains '\x00' then .error .nulInFileName
    else
      match files path with
      | .error fault =>
        .ok (.error ⟨.error, "error: [MKC-0020] cannot read " ++ path.text ++ ": " ++ fault.message path⟩)
      | .ok bytes =>
        match Text.Utf8.decode bytes with
        | .error error => .error (.undecodable error)
        | .ok text => .ok (.ok ⟨path.text, String.ofList (Text.normalizeNewlines text)⟩)

/-- A text with spaces after it up to the given width. -/
def padRight (width : Nat) (text : String) : String :=
  text ++ String.ofList (List.replicate (width - text.length) ' ')

/-- The line of a token in a token dump. -/
def tokenLine (token : Token) : String :=
  padRight 12 token.kind.name ++ " " ++ Text.quoted token.literal ++ "\n"

/-- The warning about illegal tokens, where there are any. -/
def illegalWarning (name : String) (illegal : List Token) : List LogEntry :=
  match illegal with
  | [] => []
  | first :: _ =>
    [⟨.warning, name ++ ": warning: " ++ Text.Decimal.ofNat illegal.length ++
      " illegal token(s), first " ++ first.display⟩]

/-- Dump the tokens of a text, with the end of input if it is asked for. -/
def dumpTokens (includeEof : Bool) (source : Source) : Finish :=
  let all := tokenize source.text
  let shown := all.filter fun token => includeEof || decide (token.kind ≠ .eof)
  { status := 0
    output := String.join (shown.map tokenLine)
    log :=
      [.stage "Lexing" (some source.name),
       ⟨.debug, Text.Decimal.ofNat all.length ++ " token(s) including end of input"⟩] ++
      illegalWarning source.name (all.filter fun token => decide (token.kind = .illegal)) }

/-- The lines of a dump that is not too deep to print. -/
def renderDump (program : Node) (limit : Nat := Node.depthLimit) : Option String :=
  if program.depth ≤ limit then some ("\n".intercalate (program.dump 0)) else none

/-- Parse a text and print the tree in the given way. -/
def printTree (render : Node → Option String) (source : Source) (levels : Nat := Grammar.nestingLimit) :
    Except Abort Finish :=
  let start := LogEntry.stage "Parsing" (some source.name)
  match parse source.text levels with
  | .error (.unreadable error) => .error (.unreadable error)
  | .error (.invalid error) =>
    .ok ⟨1, "", [start, ⟨.error, source.name ++ ": error: " ++ error.message⟩]⟩
  | .ok program =>
    let parsed : LogEntry :=
      ⟨.info, "Parsed " ++ Text.Decimal.ofNat program.children.length ++ " statement(s) from '" ++
        source.name ++ "'"⟩
    match render program with
    | some text => .ok ⟨0, text ++ "\n", [start, parsed]⟩
    | none =>
      .ok ⟨1, "", [start, parsed, ⟨.error, "error: [MKC-0030] program nested too deeply to print"⟩]⟩

/-- Carry out what is to be done with the text of an input. -/
def withInput (files : FileReader) (input : Input) (act : Source → Except Abort Finish) :
    Except Abort Finish := do
  match ← readInput files input with
  | .error entry => .ok ⟨1, "", [entry]⟩
  | .ok source => act source

/-- The first entry of an interactive session. -/
def sessionStart : LogEntry := ⟨.info, "Starting interactive session"⟩

/-- Carry out a task. -/
def runTask (files : FileReader) (prompt stdin : String) (task : Task) (limits : Limits := {}) :
    Except Abort Finish :=
  match task with
  | .repl =>
    match runSession prompt (String.ofList (Text.normalizeNewlines stdin.toList)) limits with
    | .error error => .error (.unreadable error)
    | .ok reply => .ok ⟨0, reply.text, sessionStart :: reply.log⟩
  | .tok includeEof input => withInput files input fun source => .ok (dumpTokens includeEof source)
  | .ast input => withInput files input fun source =>
    printTree (renderDump · limits.depth) source limits.levels
  | .fmt input => withInput files input fun source =>
    printTree (Node.canonical? · limits.depth) source limits.levels

/-- What a run leaves: its exit status and the texts of its two outputs. -/
structure Report where
  status : Nat
  output : String
  errorOutput : String
deriving DecidableEq, Repr

/-- The report of a command line that leads to no task. -/
def Stop.report : Stop → Report
  | .help manual => ⟨0, manual.help, ""⟩
  | .refused manual error => ⟨2, "", manual.refusal error⟩

/-- The settings that a command line asks for. -/
def Invocation.settings (invocation : Invocation) : Settings :=
  .ofVerbosity invocation.richFormat invocation.verbosity

/-- Run a command line with the given files and standard input; `time` is the time that rich
log lines show. -/
def run (files : FileReader) (stdin time : String) (arguments : List String) (limits : Limits := {}) :
    Except Abort Report :=
  match Invocation.ofArguments arguments with
  | .error stop => .ok stop.report
  | .ok invocation => do
    let settings := invocation.settings
    let finish ← runTask files settings.prompt stdin invocation.task limits
    .ok ⟨finish.status, finish.output, renderLog settings time finish.log⟩

end Monkey.Command

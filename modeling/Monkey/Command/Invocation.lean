import Monkey.Command.Manual

/-!
# Reading a command line

The options of the program stand before the command, those of the command after it. The whole
line is first looked at as options of the program, and what follows the command a second time
as options of the command. Words that nobody asks for are collected over both and refused in
the end, so that a request for help or another fault among them comes first.
-/

namespace Monkey.Command

/-- Where the text of a program comes from. -/
inductive Input where
  | expr (text : String)
  | file (name : String)
  | missing
deriving DecidableEq, Repr

/-- What is to be done. -/
inductive Task where
  | repl
  | tok (includeEof : Bool) (input : Input)
  | ast (input : Input)
  | fmt (input : Input)
deriving DecidableEq, Repr

/-- A command line that was understood. -/
structure Invocation where
  verbosity : Nat
  richFormat : Bool
  task : Task
deriving DecidableEq, Repr

/-- Why a command line leads to no task: help was asked for, or the line is refused. -/
inductive Stop where
  | help (manual : Manual)
  | refused (manual : Manual) (error : UsageError)
deriving DecidableEq, Repr

/-- What has been read of a command line. -/
structure Scanned where
  uses : List Use := []
  operand : Option String := none
  extras : List String := []
deriving DecidableEq, Repr

namespace Scanned

/-- Whether an option was used. -/
def uses? (scanned : Scanned) (switch : Switch) : Bool :=
  scanned.uses.any fun use => decide (use.1 = switch)

/-- The last value that was given to an option. -/
def value? (scanned : Scanned) (switch : Switch) : Option String :=
  (scanned.uses.reverse.find? fun use => decide (use.1 = switch)).bind (·.2)

end Scanned

/-- Add what a word stands for, once the value it needs has been found. -/
def apply (manual : Manual) (scanned : Scanned) (uses : List Use) : Except Stop Scanned :=
  if uses.any fun use => decide (use.1 = .help) then .error (.help manual)
  else .ok { scanned with uses := scanned.uses ++ uses }

/-- The options that a word stands for, refused in the name of the command if need be. -/
def expandFor (manual : Manual) (spec : OptionSpec) (long : Bool) (attached : Option (List Char)) :
    Except Stop Expansion :=
  (expand manual.options spec long attached).mapError (.refused manual)

/-- Whether a plain word is asked for. Two hyphens next to that word belong to it: they are
passed over where the word is still wanted or was the last one read. -/
inductive Slot where
  | wanted
  | afterSeparator
  | justTaken
  | closed
deriving DecidableEq, Repr

/-- Read a plain word. -/
def takePlain (scanned : Scanned) (text : String) : Slot → Scanned × Slot
  | .wanted => ({ scanned with operand := some text }, .justTaken)
  | .afterSeparator => ({ scanned with operand := some text }, .closed)
  | .justTaken | .closed => ({ scanned with extras := scanned.extras ++ [text] }, .closed)

/-- Read two hyphens. -/
def takeSeparator (scanned : Scanned) (raw : String) : Slot → Scanned × Slot
  | .wanted => (scanned, .afterSeparator)
  | .justTaken => (scanned, .closed)
  | .afterSeparator | .closed => ({ scanned with extras := scanned.extras ++ [raw] }, .closed)

/-- What becomes of the slot when an option is read. -/
def Slot.pass : Slot → Slot
  | .justTaken => .closed
  | slot => slot

/-- Read the words after a command. -/
def scanCommand (manual : Manual) (scanned : Scanned) (slot : Slot) :
    List (String × Word) → Except Stop Scanned
  | [] => .ok scanned
  | (_, .plain text) :: rest =>
    scanCommand manual (takePlain scanned text slot).1 (takePlain scanned text slot).2 rest
  | (raw, .separator) :: rest =>
    scanCommand manual (takeSeparator scanned raw slot).1 (takeSeparator scanned raw slot).2 rest
  | (_, .unknown text) :: rest =>
    scanCommand manual { scanned with extras := scanned.extras ++ [text] } slot.pass rest
  | (_, .option spec long attached) :: rest => do
    let expansion ← expandFor manual spec long attached
    match expansion.pending with
    | none =>
      let scanned ← apply manual scanned expansion.uses
      scanCommand manual scanned slot.pass rest
    | some spec =>
      match rest with
      | (_, .plain value) :: rest' =>
        let uses := expansion.uses ++ [(spec.switch, some value)]
        let scanned ← apply manual scanned uses
        scanCommand manual scanned slot.pass rest'
      | _ => .error (.refused manual (.missingArgument spec.label))

/-- Read the words of the program up to its command; give what was read, and the command with
the words after it. -/
def scanProgram (manual : Manual) (scanned : Scanned) :
    List (String × Word) → Except Stop (Scanned × Option (String × List String))
  | [] => .ok (scanned, none)
  | (_, .plain text) :: rest => .ok (scanned, some (text, rest.map (·.1)))
  | (raw, .separator) :: rest =>
    if rest.isEmpty then .ok (scanned, none) else .ok (scanned, some (raw, rest.map (·.1)))
  | (_, .unknown text) :: rest =>
    scanProgram manual { scanned with extras := scanned.extras ++ [text] } rest
  | (_, .option spec long attached) :: rest => do
    let expansion ← expandFor manual spec long attached
    match expansion.pending with
    | none =>
      let scanned ← apply manual scanned expansion.uses
      scanProgram manual scanned rest
    | some spec =>
      match rest with
      | (_, .plain value) :: rest' =>
        let uses := expansion.uses ++ [(spec.switch, some value)]
        let scanned ← apply manual scanned uses
        scanProgram manual scanned rest'
      | _ => .error (.refused manual (.missingArgument spec.label))

/-- Where the text of a program comes from: program text goes before a file. -/
def Scanned.input (scanned : Scanned) : Input :=
  match scanned.value? .expr, scanned.operand with
  | some text, _ => .expr text
  | none, some name => .file name
  | none, none => .missing

/-- Every command but the session takes the name of a file. -/
def Verb.slot : Verb → Slot
  | .repl => .closed
  | _ => .wanted

/-- What a command is to do. -/
def Verb.task (verb : Verb) (scanned : Scanned) : Task :=
  match verb with
  | .repl => .repl
  | .tok => .tok (scanned.uses? .includeEof) scanned.input
  | .ast => .ast scanned.input
  | .fmt => .fmt scanned.input

/-- The words of a line as options of a manual. -/
def classifyFor (manual : Manual) (words : List String) : Except Stop (List (String × Word)) :=
  (classifyAll manual.options words).mapError (.refused manual)

/-- The task that a command line asks for. -/
def Invocation.ofArguments (arguments : List String) : Except Stop Invocation := do
  let words ← classifyFor mainManual arguments
  let (program, command?) ← scanProgram mainManual {} words
  match command? with
  | none => .error (.refused mainManual .missingCommand)
  | some (word, rest) =>
    match verbWords.lookup word with
    | none => .error (.refused mainManual (.invalidCommand word (verbWords.map (·.1))))
    | some verb =>
      let words ← classifyFor verb.manual rest
      let command ← scanCommand verb.manual {} verb.slot words
      match program.extras ++ command.extras with
      | [] =>
        .ok
          { verbosity := program.uses.countP fun use => decide (use.1 = .verbose)
            richFormat := program.uses? .log
            task := verb.task command }
      | extras => .error (.refused mainManual (.unrecognized extras))

end Monkey.Command

import Monkey.Grammar.Parse
import Monkey.Log
import Monkey.Node.Canonical
import Monkey.Text.Newline

/-!
# The interactive session

Each line is a program of its own and is answered by one line: its canonical form, or the
error that was found. The session ends with its input; a syntax error does not end it, but a
number whose text is not converted does.
-/

namespace Monkey

/-- How deep reading and printing go: the number of levels of nesting that are followed, and the depth of
the deepest trees that are printed. -/
structure Limits where
  levels : Nat := Grammar.nestingLimit
  depth : Nat := Node.depthLimit

/-- The answer to a line and what was logged on the way. -/
structure Reply where
  text : String
  log : List LogEntry
deriving DecidableEq, Repr

/-- The wording of an answer that reports an error. -/
def errorReply (message : String) : String := "ERROR: " ++ message

/-- The answer to one line. -/
def evalLine (line : String) (limits : Limits := {}) : Except Text.NumeralError Reply :=
  let start := LogEntry.stage "Parsing" (some "<repl>")
  match parse line limits.levels with
  | .error (.unreadable error) => .error error
  | .error (.invalid error) =>
    .ok ⟨errorReply error.message, [start, ⟨.debug, "parse aborted: " ++ error.kindName⟩]⟩
  | .ok program =>
    let parsed : LogEntry :=
      ⟨.debug, "parsed " ++ Text.Decimal.ofNat program.children.length ++ " statement(s)"⟩
    match program.canonical? limits.depth with
    | some text => .ok ⟨text, [start, parsed]⟩
    | none =>
      .ok ⟨errorReply "[REPL-0010] program nested too deeply to print",
        [start, parsed, ⟨.debug, "canonical form too deep to render"⟩]⟩

/-- The answers to the lines of a text, which end at line feeds only. -/
def answers (text : List Char) (limits : Limits := {}) : Except Text.NumeralError (List Reply) :=
  (Text.lines text).mapM fun line => evalLine (String.ofList line) limits

/-- What is written once a line is answered: the answer and the prompt for the next line. -/
def Reply.output (prompt : String) (reply : Reply) : String := reply.text ++ "\n" ++ prompt

/-- A whole session over a text: the prompt for the first line, and what is written after
each line. -/
def runSession (prompt text : String) (limits : Limits := {}) : Except Text.NumeralError Reply := do
  let replies ← answers text.toList limits
  .ok ⟨prompt ++ String.join (replies.map (Reply.output prompt)), replies.flatMap (·.log)⟩

end Monkey

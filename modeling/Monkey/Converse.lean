import Monkey.Console
import Monkey.Session

/-!
# The session as it happens

The session writes a prompt, takes a line off its input and writes the answer to it, until it finds
nothing left after a prompt. Each line is logged while it is answered.
-/

namespace Monkey

/-- Answer one line, and log on the way. -/
def answerLine (line : String) (limits : Limits := {}) : Action Text.NumeralError String := do
  .log (.stage "Parsing" (some "<repl>"))
  match parse line limits.levels with
  | .error (.unreadable error) => .fail error
  | .error (.invalid error) =>
    .log ⟨.debug, "parse aborted: " ++ error.kindName⟩
    pure (errorReply error.message)
  | .ok program =>
    .log ⟨.debug, "parsed " ++ Text.Decimal.ofNat program.children.length ++ " statement(s)"⟩
    match program.canonical? limits.depth with
    | some text => pure text
    | none =>
      .log ⟨.debug, "canonical form too deep to render"⟩
      pure (errorReply "[REPL-0010] program nested too deeply to print")

/-- Answer the lines of an input that are left. -/
def converse (input : List Char) (limits : Limits := {}) : Action Text.NumeralError Unit := do
  .write (← .prompt)
  match input with
  | [] => pure ()
  | c :: rest =>
    let parts := Text.splitLine (c :: rest)
    .write (← answerLine (String.ofList parts.1) limits)
    .write "\n"
    converse parts.2 limits
termination_by input.length
decreasing_by exact Text.length_splitLine_snd c rest

end Monkey

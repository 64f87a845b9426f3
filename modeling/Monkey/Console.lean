import Monkey.Log

/-!
# Acting on a console

While it runs, the program writes its answers to one output and the lines of its log to another, as
they arise. An action may read the settings, write and log, and it ends with a value or fails; what was
written before a failure stays. Whether a line of the log is written, and how, is decided when it is
logged, and a line in rich format is written with the time of that moment.
-/

namespace Monkey

/-- What an action finds: the settings, and the time at which each line of the log is written. -/
structure Surroundings where
  settings : Settings
  clock : Nat → String

/-- A line of the log as it was written, with the time if lines show it. -/
structure LogLine where
  time : Option String
  entry : LogEntry
deriving DecidableEq, Repr

namespace LogLine

/-- The line of an entry that is written as the line of the given number. -/
def ofEntry (around : Surroundings) (number : Nat) (entry : LogEntry) : LogLine where
  time := if around.settings.richFormat then some (around.clock number) else none
  entry := entry

/-- The text of a line. -/
def text (line : LogLine) : String :=
  (match line.time with
    | some time => time ++ " [" ++ line.entry.level.name ++ "] "
    | none => "") ++ line.entry.message ++ "\n"

/-- What a line says without the time. -/
def untimed (line : LogLine) : String :=
  (if line.time.isSome then "[" ++ line.entry.level.name ++ "] " else "") ++ line.entry.message

end LogLine

/-- What has been written: the text of the output and the lines of the log. -/
structure Console where
  output : String := ""
  lines : List LogLine := []
deriving DecidableEq, Repr

namespace Console

/-- Write to the output. -/
def write (text : String) (console : Console) : Console :=
  { console with output := console.output ++ text }

/-- Write the line of an entry if it is shown. -/
def note (around : Surroundings) (console : Console) (entry : LogEntry) : Console :=
  if entry.isShown around.settings then
    { console with lines := console.lines ++ [.ofEntry around console.lines.length entry] }
  else console

/-- The text of the log. -/
def errorOutput (console : Console) : String := String.join (console.lines.map LogLine.text)

end Console

/-- What may read the settings, write and log, and ends with a value or a failure. -/
def Action (ε α : Type) : Type := Surroundings → Console → Except ε α × Console

namespace Action

variable {ε ε' α β : Type}

/-- How an action ends, and the console that it leaves. -/
def run (action : Action ε α) (around : Surroundings) (console : Console) : Except ε α × Console :=
  action around console

/-- Do nothing. -/
def give (value : α) : Action ε α := fun _ console => (.ok value, console)

/-- Do nothing and fail. -/
def fail (error : ε) : Action ε α := fun _ console => (.error error, console)

/-- Do one thing and then, unless that failed, what follows it. -/
def andThen (first : Action ε α) (following : α → Action ε β) : Action ε β := fun around console =>
  match first around console with
  | (.ok value, after) => following value around after
  | (.error error, after) => (.error error, after)

instance : Monad (Action ε) where
  pure := give
  bind := andThen

/-- What follows goes on from the value and the console of what was before it. -/
theorem run_bind (first : Action ε α) (following : α → Action ε β) (around : Surroundings)
    (console : Console) :
    (first >>= following).run around console =
      match first.run around console with
      | (.ok value, after) => (following value).run around after
      | (.error error, after) => (.error error, after) := rfl

/-- The prompt of the settings. -/
def prompt : Action ε String := fun around console => (.ok around.settings.prompt, console)

/-- Write to the output. -/
def write (text : String) : Action ε Unit := fun _ console => (.ok (), console.write text)

/-- Log an entry. -/
def log (entry : LogEntry) : Action ε Unit := fun around console => (.ok (), console.note around entry)

/-- The same action with its failure reported as another one. -/
def mapError (f : ε → ε') (action : Action ε α) : Action ε' α := fun around console =>
  ((action around console).1.mapError f, (action around console).2)

/-- Do the same thing with each value of a list. -/
def forEach (values : List α) (act : α → Action ε Unit) : Action ε Unit :=
  match values with
  | [] => pure ()
  | value :: rest => do
    act value
    forEach rest act

end Action

end Monkey

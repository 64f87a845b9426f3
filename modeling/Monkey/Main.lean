import Monkey.Command.Run
import Std.Time.Format
import Std.Time.Zoned

/-!
# The program

Reads the command line, the file that it names and the standard input, and writes what the
library answers. The interactive session is answered line by line.
-/

namespace Monkey.Command

/-- The local time as log lines show it. -/
def currentTime : IO String := do
  let now ← Std.Time.PlainDateTime.now
  pure (now.format "uuuu-MM-dd HH:mm:ss")

/-- The number of an error of the system, which is reported with either sign. -/
def errorNumber (code : UInt32) : Nat := code.toInt32.toInt.natAbs

/-- The refusal with a number, in the words of the system where it is not a common one. -/
def faultOfNumber (number : Nat) (reason : String) : SystemFault :=
  match [SystemFault.noSuchFile, .notDirectory, .isDirectory, .nameTooLong].find?
      fun fault => fault.code == number with
  | some fault => fault
  | none => ⟨number, reason⟩

/-- The refusal that an error of the system stands for. -/
def faultOfError : IO.Error → SystemFault
  | .noFileOrDirectory _ code reason => faultOfNumber (errorNumber code) reason
  | .inappropriateType _ code reason | .invalidArgument _ code reason
  | .permissionDenied _ code reason | .resourceExhausted _ code reason =>
    faultOfNumber (errorNumber code) reason
  | .otherError code reason | .hardwareFault code reason | .resourceBusy code reason =>
    faultOfNumber (errorNumber code) reason
  | other => ⟨5, toString other⟩

/-- The contents of the file that a task needs. -/
def loadFile (path : Path) : IO (Except SystemFault (List UInt8)) := do
  match ← (IO.FS.readBinFile path.text).toBaseIO with
  | .ok bytes => pure (.ok bytes.toList)
  | .error error => pure (.error (faultOfError error))

/-- The file that a task reads. -/
def Task.path? : Task → Option Path
  | .tok _ (.file name) | .ast (.file name) | .fmt (.file name) => some (Path.ofName name)
  | _ => none

/-- Report a fault that ends the run without an exit status of its own. -/
def abort (message : String) : IO UInt32 := do
  (← IO.getStderr).putStrLn message
  pure 1

/-- Answer the lines of the standard input after a prompt has been written. -/
partial def interact (settings : Settings) (limits : Limits := {}) : IO UInt32 := do
  let output ← IO.getStdout
  output.flush
  let line ← (← IO.getStdin).getLine
  if line.isEmpty then pure 0
  else
    match answers (Text.normalizeNewlines line.toList) limits with
    | .error error => abort error.message
    | .ok replies =>
      for reply in replies do
        (← IO.getStderr).putStr (renderLog settings (← currentTime) reply.log)
        output.putStr (reply.output settings.prompt)
      interact settings limits

/-- Carry out an invocation. -/
def perform (invocation : Invocation) (limits : Limits := {}) : IO UInt32 := do
  let settings := invocation.settings
  match invocation.task with
  | .repl =>
    (← IO.getStderr).putStr (renderLog settings (← currentTime) [sessionStart])
    (← IO.getStdout).putStr settings.prompt
    interact settings limits
  | task =>
    let contents ←
      match task.path? with
      | some path => loadFile path
      | none => pure (.error .noSuchFile)
    match runTask (fun _ => contents) settings.prompt "" task limits with
    | .error fault => abort fault.message
    | .ok finish =>
      (← IO.getStdout).putStr finish.output
      (← IO.getStderr).putStr (renderLog settings (← currentTime) finish.log)
      pure (UInt32.ofNat finish.status)

end Monkey.Command

/-- The program `mkc`. -/
def main (arguments : List String) : IO UInt32 := do
  match Monkey.Command.Invocation.ofArguments arguments with
  | .ok invocation => Monkey.Command.perform invocation
  | .error stop =>
    let report := stop.report
    (← IO.getStdout).putStr report.output
    (← IO.getStderr).putStr report.errorOutput
    pure (UInt32.ofNat report.status)

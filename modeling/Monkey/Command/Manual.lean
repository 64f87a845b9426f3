import Monkey.Command.Option

/-!
# The manual of the program

The options and help texts of `mkc` and of its commands.
-/

namespace Monkey.Command

/-- What a program or a command says about itself, and the options it takes. -/
structure Manual where
  name : String
  usage : String
  description : String
  options : List OptionSpec
deriving DecidableEq, Repr

namespace Manual

/-- The text that is shown on request. -/
def help (manual : Manual) : String := manual.usage ++ "\n" ++ manual.description

/-- The text that is shown when a command line is refused. -/
def refusal (manual : Manual) (error : UsageError) : String :=
  manual.usage ++ manual.name ++ ": error: " ++ error.message ++ "\n"

end Manual

/-- The commands of the program. -/
inductive Verb where
  | repl
  | tok
  | ast
  | fmt
deriving DecidableEq, Repr

/-- The words that name a command. -/
def verbWords : List (String × Verb) :=
  [("repl", .repl), ("tok", .tok), ("tokens", .tok), ("ast", .ast), ("fmt", .fmt),
   ("format", .fmt)]

/-- The request for help. -/
def helpOption : OptionSpec := ⟨.help, ["-h", "--help"], false⟩

/-- Program text in place of a file. -/
def exprOption : OptionSpec := ⟨.expr, ["-e", "--expr"], true⟩

/-- Lines, each with its line feed. -/
def unlines (ls : List String) : String := String.join (ls.map fun line => line ++ "\n")

/-- The manual of the program itself. -/
def mainManual : Manual where
  name := "mkc"
  usage := "usage: mkc [-h] [-v] [-l] \x7brepl,tok,tokens,ast,fmt,format\x7d ...\n"
  description := unlines
    ["Monkey language front end",
     "",
     "positional arguments:",
     "  \x7brepl,tok,tokens,ast,fmt,format\x7d",
     "                        Command to run",
     "    repl                Start the interactive parser loop",
     "    tok (tokens)        Dump lexer tokens",
     "    ast                 Dump the parsed tree",
     "    fmt (format)        Print the canonical form",
     "",
     "options:",
     "  -h, --help            show this help message and exit",
     "  -v, --verbose         Increase verbosity: -v=INFO, -vvv=DEBUG",
     "  -l, --log             Enable rich log formatting (timestamps, levels)"]
  options :=
    [helpOption, ⟨.verbose, ["-v", "--verbose"], false⟩, ⟨.log, ["-l", "--log"], false⟩]

/-- The description of the commands that read a program. -/
def inputDescription (ownOptions : List String) : String :=
  unlines
    (["positional arguments:",
      "  file                  Source file to read",
      "",
      "options:",
      "  -h, --help            show this help message and exit"] ++
     ownOptions ++
     ["  -e SOURCE, --expr SOURCE",
      "                        Use SOURCE as program text instead of reading a file"])

/-- The manual of each command. -/
def Verb.manual : Verb → Manual
  | .repl =>
    { name := "mkc repl"
      usage := "usage: mkc repl [-h]\n"
      description := unlines ["options:", "  -h, --help  show this help message and exit"]
      options := [helpOption] }
  | .tok =>
    { name := "mkc tok"
      usage := "usage: mkc tok [-h] [--include-eof] [-e SOURCE] [file]\n"
      description :=
        inputDescription ["  --include-eof, -I     Include the EOF token in the output"]
      options := [helpOption, ⟨.includeEof, ["--include-eof", "-I"], false⟩, exprOption] }
  | .ast =>
    { name := "mkc ast"
      usage := "usage: mkc ast [-h] [-e SOURCE] [file]\n"
      description := inputDescription []
      options := [helpOption, exprOption] }
  | .fmt =>
    { name := "mkc fmt"
      usage := "usage: mkc fmt [-h] [-e SOURCE] [file]\n"
      description := inputDescription []
      options := [helpOption, exprOption] }

end Monkey.Command

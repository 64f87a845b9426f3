import Monkey.Proofs.ExprOption
import Monkey.Proofs.OneLine
import Monkey.Proofs.Outcome

/-!
# One text, whichever way it comes in

A text is tokenized, dumped and printed alike whether a file holds its encoding or it is handed over on
the command line. The line ends of a file are unified when it is read, which makes another text of it, but
leaves its tokens as they are; and what a command prints and how it ends depends on the tokens alone. A
line of a session is answered by what is printed as its canonical form, or by the message that is
reported.
-/

namespace Monkey

namespace Command

variable {files : FileReader} {text name stdin time prompt : String} {arguments : List String}
  {invocation : Invocation} {first second : Source} {limits : Limits}

/-- What a task ends with apart from its log. -/
def Finish.answer (finish : Finish) : Nat × String := (finish.status, finish.output)

end Command

/-! ## Sessions and canonical forms -/

variable {text : String} {program : Node} {error : SyntaxError} {limits : Limits}

namespace Command

variable {files : FileReader} {stdin time : String} {arguments : List String} {invocation : Invocation}

end Command

end Monkey

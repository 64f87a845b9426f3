import Monkey.Proofs.LogSettings

/-!
# Program text on a command line

A command that reads a program takes its text in two ways. Behind an equals sign after the name of the
option every text is taken as it is, but for the two hyphens, which are dropped there. As a word of its
own after the option a text is taken exactly if it is a plain word: a text that looks like an option is
not, and the command line is refused.
-/

namespace Monkey.Command

variable {specs : List OptionSpec} {spec : OptionSpec} {verb : Verb} {word text : String}
  {option value : List Char}

end Monkey.Command

import Monkey.Text.Numeral
import Monkey.Text.Quoted

/-!
# Options on a command line

A command takes options, which start with a hyphen, and plain words. A long option may be
shortened as long as it stays unique and may have its value after an equals sign. Short options
may be written together, with or without an equals sign after the first one, and the rest of
such a cluster is the value of the first option in it that takes one. A word with a hyphen in
front is plain if it is a hyphen alone, a negative number or holds a space, and every word after
two hyphens is plain.
-/

namespace Monkey.Command

/-- What an option asks for. -/
inductive Switch where
  | help
  | verbose
  | log
  | includeEof
  | expr
deriving DecidableEq, Repr

/-- An option: its names, and whether a value belongs to it. -/
structure OptionSpec where
  switch : Switch
  names : List String
  takesValue : Bool
deriving DecidableEq, Repr

/-- How messages name an option. -/
def OptionSpec.label (spec : OptionSpec) : String := "/".intercalate spec.names

/-- Why a command line was refused. -/
inductive UsageError where
  /-- There is no command. -/
  | missingCommand
  /-- The command is not one of the choices. -/
  | invalidCommand (word : String) (choices : List String)
  /-- A shortened option could be several. -/
  | ambiguousOption (word : String) (candidates : List String)
  /-- An option that takes no value was given one. -/
  | explicitArgument (option : String) (value : String)
  /-- An option that takes a value has none. -/
  | missingArgument (option : String)
  /-- There are words that nothing asks for. -/
  | unrecognized (words : List String)
deriving DecidableEq, Repr

/-- The wording of a refusal. -/
def UsageError.message : UsageError → String
  | missingCommand => "the following arguments are required: command"
  | invalidCommand word choices =>
    "argument command: invalid choice: " ++ Text.quoted word ++ " (choose from " ++
      ", ".intercalate (choices.map Text.quoted) ++ ")"
  | ambiguousOption word candidates =>
    "ambiguous option: " ++ word ++ " could match " ++ ", ".intercalate candidates
  | explicitArgument option value =>
    "argument " ++ option ++ ": ignored explicit argument " ++ Text.quoted value
  | missingArgument option => "argument " ++ option ++ ": expected one argument"
  | unrecognized words => "unrecognized arguments: " ++ " ".intercalate words

/-- What a word of a command line is. What is attached to an option is the rest of its word,
without the equals sign that may stand before it. -/
inductive Word where
  | plain (text : String)
  | separator
  | option (spec : OptionSpec) (long : Bool) (attached : Option (List Char))
  | unknown (text : String)
deriving DecidableEq, Repr

/-- The names of all options, each with its option, in the order in which they are declared. -/
def optionNames (specs : List OptionSpec) : List (String × OptionSpec) :=
  specs.flatMap fun spec => spec.names.map fun name => (name, spec)

/-- The option with the given name. -/
def findOption? (specs : List OptionSpec) (name : List Char) : Option OptionSpec :=
  (optionNames specs).lookup (String.ofList name)

/-- Digits of any script. -/
def isDecimalDigit (c : Char) : Bool := (Text.decimalValue? c).isSome

/-- A text without the line feed that may end it. -/
def dropFinalNewline (text : List Char) : List Char :=
  if text.getLast? = some '\n' then text.dropLast else text

/-- Digits, or a point with digits after it and possibly before it. -/
def isUnsignedNumber (text : List Char) : Bool :=
  match text.dropWhile isDecimalDigit with
  | [] => !text.isEmpty
  | c :: fraction => c == '.' && !fraction.isEmpty && fraction.all isDecimalDigit

/-- Whether a word is a hyphen and a number, with nothing after it but a line feed. -/
def isNegativeNumber : List Char → Bool
  | '-' :: rest => isUnsignedNumber (dropFinalNewline rest)
  | _ => false

/-- A text up to its first equals sign, and what follows the sign if there is one. -/
def splitAtEquals (text : List Char) : List Char × Option (List Char) :=
  match text.dropWhile (· != '=') with
  | [] => (text, none)
  | _ :: value => (text.takeWhile (· != '='), some value)

/-- The options whose names a long option may be short for, or the short option that a cluster
starts with. -/
def candidates (specs : List OptionSpec) (word : List Char) :
    List (String × OptionSpec × Option (List Char)) :=
  if word.take 2 = ['-', '-'] then
    let parts := splitAtEquals word
    ((optionNames specs).filter fun entry => parts.1.isPrefixOf entry.1.toList).map
      fun entry => (entry.1, entry.2, parts.2)
  else
    ((optionNames specs).filter fun entry => entry.1.toList == word.take 2).map
      fun entry => (entry.1, entry.2, some (word.drop 2))

/-- Whether a name is that of a long option. -/
def isLong (name : List Char) : Bool := name.take 2 == ['-', '-']

/-- What a word is that stands before any pair of hyphens. -/
def classify (specs : List OptionSpec) (text : String) : Except UsageError Word :=
  let word := text.toList
  if word.head? ≠ some '-' then .ok (.plain text)
  else
    match findOption? specs word with
    | some spec => .ok (.option spec (isLong word) none)
    | none =>
      if word.length = 1 then .ok (.plain text)
      else
        let parts := splitAtEquals word
        match findOption? specs parts.1, parts.2 with
        | some spec, some attached => .ok (.option spec (isLong parts.1) (some attached))
        | _, _ =>
          match candidates specs word with
          | [(name, spec, attached)] => .ok (.option spec (isLong name.toList) attached)
          | [] =>
            if isNegativeNumber word || word.contains ' ' then .ok (.plain text)
            else .ok (.unknown text)
          | several => .error (.ambiguousOption text (several.map (·.1)))

/-- What each word of a command line is, together with the word. -/
def classifyAll (specs : List OptionSpec) : List String → Except UsageError (List (String × Word))
  | [] => .ok []
  | "--" :: rest => .ok (("--", .separator) :: rest.map fun text => (text, .plain text))
  | text :: rest => do
    let word ← classify specs text
    let others ← classifyAll specs rest
    .ok ((text, word) :: others)

/-- An option as it is used, with its value if it takes one. -/
abbrev Use := Switch × Option String

/-- The options that a word stands for: those whose use is complete, and the one that still
needs a value. -/
structure Expansion where
  uses : List Use := []
  pending : Option OptionSpec := none
deriving DecidableEq, Repr

/-- The value that is attached to an option; two hyphens alone leave it empty. -/
def attachedValue (value : List Char) : String :=
  if value = ['-', '-'] then "" else String.ofList value

/-- The options of a cluster: a short option and the characters after it. -/
def expandCluster (specs : List OptionSpec) (spec : OptionSpec) :
    List Char → Except UsageError Expansion
  | [] =>
    .ok (if spec.takesValue then { pending := some spec } else { uses := [(spec.switch, none)] })
  | c :: more =>
    if spec.takesValue then .ok { uses := [(spec.switch, some (attachedValue (c :: more)))] }
    else
      match findOption? specs ['-', c] with
      | none => .error (.explicitArgument spec.label (String.ofList (c :: more)))
      | some next => do
        let others ← expandCluster specs next more
        .ok { others with uses := (spec.switch, none) :: others.uses }

/-- The options that one option stands for, with what is attached to it. Only a short option
can be followed by further ones. -/
def expand (specs : List OptionSpec) (spec : OptionSpec) (long : Bool) :
    Option (List Char) → Except UsageError Expansion
  | none => expandCluster specs spec []
  | some value =>
    if spec.takesValue then .ok { uses := [(spec.switch, some (attachedValue value))] }
    else if long || value.isEmpty then
      .error (.explicitArgument spec.label (String.ofList value))
    else expandCluster specs spec value

end Monkey.Command

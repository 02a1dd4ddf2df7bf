/-!
# Options on a command line

Options begin with a hyphen: a name behind two, or letters behind one. The value
of an option is attached, behind an equals sign or directly behind the letter,
or it is the next word; a next word that begins with a hyphen is taken for a
value only if it is the hyphen alone. Letters of options without a value may
share one hyphen. All words that follow `--` are plain, whatever they begin with.

An option is given at most once, unless it is one that collects values. The
words are read from the first to the last, and the first that makes no sense, or
that asks for help or the version, ends the reading.
-/

namespace Strata.CommandLine

/-- What an option takes. -/
inductive Arity
  /-- No value. -/
  | flag
  /-- One value. -/
  | single
  /-- One value each time it is given. -/
  | many
  deriving DecidableEq, Repr

structure OptionSpec where
  name : String
  letter : Option Char := none
  arity : Arity
  /-- Whether the empty value is accepted. -/
  takesEmpty : Bool := true
  deriving DecidableEq, Repr

/-- What may stand behind the name of a command. -/
structure CommandSpec where
  options : List OptionSpec
  /-- How many plain words there are at most. -/
  words : Nat
  deriving DecidableEq, Repr

/-- Why reading a command line ends before a command is known. -/
inductive Stop
  /-- It makes no sense. -/
  | usage
  /-- It asks for help. -/
  | help
  /-- It asks for the version. -/
  | version
  deriving DecidableEq, Repr

/-- What has been read. -/
structure Arguments where
  /-- Options by name, with their values where they take one, in order. -/
  options : List (String × String) := []
  /-- Words that are no options. -/
  words : List String := []
  deriving DecidableEq, Repr

namespace Arguments

/-- Whether an option was given. -/
def has (arguments : Arguments) (name : String) : Bool :=
  arguments.options.any fun given => given.1 = name

/-- The values of an option. -/
def values (arguments : Arguments) (name : String) : List String :=
  (arguments.options.filter fun given => given.1 = name).map Prod.snd

/-- The value of an option that is given at most once. -/
def value? (arguments : Arguments) (name : String) : Option String :=
  (arguments.values name).head?

/-- The arguments with one more option. Help and version end the reading. -/
def give (arguments : Arguments) (spec : OptionSpec) (value : String) : Except Stop Arguments :=
  if spec.name = "help" then .error .help
  else if spec.name = "version" then .error .version
  else if spec.arity ≠ .many ∧ arguments.has spec.name then .error .usage
  else if spec.takesEmpty = false ∧ value = "" then .error .usage
  else .ok { arguments with options := arguments.options ++ [(spec.name, value)] }

/-- An option by its name, with what is attached behind an equals sign. Gives
the option back if it still needs a value. -/
def giveNamed (specs : List OptionSpec) (arguments : Arguments) (name : String)
    (attached : Option String) : Except Stop (Arguments × Option OptionSpec) :=
  match specs.find? fun spec => spec.name = name with
  | none => .error .usage
  | some spec =>
    match spec.arity, attached with
    | .flag, some _ => .error .usage
    | .flag, none => (fun arguments => (arguments, none)) <$> arguments.give spec ""
    | _, some value => (fun arguments => (arguments, none)) <$> arguments.give spec value
    | _, none => .ok (arguments, some spec)

/-- Options by their letters. Gives the last one back if it still needs a value. -/
def giveLetters (specs : List OptionSpec) (arguments : Arguments) :
    List Char → Except Stop (Arguments × Option OptionSpec)
  | [] => .ok (arguments, none)
  | letter :: rest =>
    match specs.find? fun spec => spec.letter = some letter with
    | none => .error .usage
    | some spec =>
      match spec.arity, rest with
      | .flag, rest => do
        let arguments ← arguments.give spec ""
        arguments.giveLetters specs rest
      | _, [] => .ok (arguments, some spec)
      | _, '=' :: value =>
        (fun arguments => (arguments, none)) <$> arguments.give spec (String.ofList value)
      | _, value =>
        (fun arguments => (arguments, none)) <$> arguments.give spec (String.ofList value)

end Arguments

/-- Whether a word can only be an option. -/
def isOption (word : String) : Bool :=
  match word.toList with
  | '-' :: _ :: _ => true
  | _ => false

/-- Read a word that can only be an option. -/
def readOption (specs : List OptionSpec) (arguments : Arguments) (word : String) :
    Except Stop (Arguments × Option OptionSpec) :=
  match word.toList with
  | '-' :: '-' :: characters =>
    let name := String.ofList (characters.takeWhile (· ≠ '='))
    match characters.dropWhile (· ≠ '=') with
    | _ :: value => arguments.giveNamed specs name (some (String.ofList value))
    | [] => arguments.giveNamed specs name none
  | '-' :: letters => arguments.giveLetters specs letters
  | _ => .error .usage

/-- Take plain words, unless they are too many. -/
def takeWords (limit : Nat) (arguments : Arguments) (words : List String) :
    Except Stop Arguments :=
  let taken := arguments.words ++ words
  if limit < taken.length then .error .usage else .ok { arguments with words := taken }

/-- Read all words behind the name of a command. -/
def readArguments (spec : CommandSpec) (arguments : Arguments) :
    List String → Except Stop Arguments
  | [] => .ok arguments
  | word :: rest =>
    if word = "--" then takeWords spec.words arguments rest
    else if isOption word then do
      let (arguments, pending) ← readOption spec.options arguments word
      match pending, rest with
      | none, rest => readArguments spec arguments rest
      | some _, [] => .error .usage
      | some option, value :: rest =>
        if isOption value then .error .usage
        else
          let arguments ← arguments.give option value
          readArguments spec arguments rest
    else do
      let arguments ← takeWords spec.words arguments [word]
      readArguments spec arguments rest

/-- Read the options in front of the first plain word, none of which takes a
value; gives that word and the words behind it. -/
def readLeading (specs : List OptionSpec) (arguments : Arguments) :
    List String → Except Stop (String × List String)
  | [] => .error .usage
  | word :: rest =>
    if word = "--" then .error .usage
    else if isOption word then do
      let (arguments, pending) ← readOption specs arguments word
      if pending.isSome then .error .usage else readLeading specs arguments rest
    else .ok (word, rest)

end Strata.CommandLine

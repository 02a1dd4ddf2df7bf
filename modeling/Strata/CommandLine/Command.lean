import Strata.CommandLine.Options
import Strata.Engine
import Strata.Text.Pieces

/-!
# Commands

What a command line asks for: the configuration of a module, the explanation of
it, or a check of the cascade file itself. The options for logging may stand in
front of the command or behind its name; they change nothing about the answer.
-/

namespace Strata.CommandLine

/-- A request against a cascade file. -/
structure Inquiry where
  query : Query
  path : String
  /-- What replaces the file's context, dimension by dimension. -/
  overrides : Context
  deriving DecidableEq, Repr

inductive Command
  | select (inquiry : Inquiry) (pretty : Bool)
  | explain (inquiry : Inquiry) (human : Bool)
  | check (path : String)
  deriving DecidableEq, Repr

namespace Command

/-- The cascade file that is read unless another one is named. -/
def standardPath : String := "cascade.toml"

/-- The options that every command has. -/
def sharedOptions : List OptionSpec := [
  { name := "debug", arity := .flag },
  { name := "verbose", letter := some 'v', arity := .flag },
  { name := "help", letter := some 'h', arity := .flag }]

/-- The options in front of a command. -/
def leadingOptions : List OptionSpec :=
  sharedOptions ++ [{ name := "version", letter := some 'V', arity := .flag }]

def configOption : OptionSpec :=
  { name := "config", letter := some 'c', arity := .single, takesEmpty := false }

/-- What may stand behind `check`. -/
def checkSpec : CommandSpec where
  options := sharedOptions ++ [configOption]
  words := 0

/-- What may stand behind a request whose answer has another form with the given flag. -/
def inquirySpec (form : String) : CommandSpec where
  options := sharedOptions ++ [configOption,
    { name := "annotation", letter := some 'a', arity := .single },
    { name := "inherit", arity := .flag },
    { name := "application", arity := .single },
    { name := "user", arity := .single },
    { name := "theme", arity := .single },
    { name := "locale", arity := .many },
    { name := form, arity := .flag }]
  words := 1

/-- The names of the commands. -/
def names : List String := ["select", "explain", "check", "help"]

/-- The file that the arguments name. -/
def pathOf (arguments : Arguments) : String :=
  (arguments.value? "config").getD standardPath

/-- The context that the arguments describe. Locales are separated by commas. -/
def contextOf (arguments : Arguments) : Context :=
  let one (name : String) : Option Accepted := (arguments.value? name).map fun value => ⟨[value]⟩
  { application := one "application"
    user := one "user"
    theme := one "theme"
    locale :=
      if arguments.has "locale" then
        some ⟨(arguments.values "locale").flatMap (Text.pieces ',')⟩
      else none }

/-- The request of arguments with a plain word, which names the module. -/
def inquiryOf (arguments : Arguments) : Except Stop Inquiry :=
  match arguments.words.head? with
  | none => .error .usage
  | some moduleId => .ok {
      query := {
        moduleId
        annotationId := arguments.value? "annotation"
        inherit := arguments.has "inherit" }
      path := pathOf arguments
      overrides := contextOf arguments }

/-- What `help` comes to with the words behind it: at most one, the name of a command. -/
def helpOn : List String → Stop
  | [] => .help
  | [name] => if names.contains name then .help else .usage
  | _ => .usage

/-- The command of a command line. -/
def parse (words : List String) : Except Stop Command := do
  let (name, rest) ← readLeading leadingOptions {} words
  match name with
  | "select" => do
    let arguments ← readArguments (inquirySpec "pretty") {} rest
    let inquiry ← inquiryOf arguments
    pure (.select inquiry (arguments.has "pretty"))
  | "explain" => do
    let arguments ← readArguments (inquirySpec "human") {} rest
    let inquiry ← inquiryOf arguments
    pure (.explain inquiry (arguments.has "human"))
  | "check" => do
    let arguments ← readArguments checkSpec {} rest
    pure (.check (pathOf arguments))
  | "help" => .error (helpOn rest)
  | _ => .error .usage

/-- The cascade file of a command. -/
def path : Command → String
  | .select inquiry _ => inquiry.path
  | .explain inquiry _ => inquiry.path
  | .check path => path

end Command

end Strata.CommandLine

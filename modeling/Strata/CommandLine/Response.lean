import Strata.CommandLine.Command
import Strata.Manifest.Parser
import Strata.Report

/-!
# Responses

What the program does about a command line, given the contents of the cascade
file that the command names: what it prints, what it reports as an error, and
its exit status. A file that cannot be read, that is no manifest or that
describes no engine is told apart by the status from a request that fails.
-/

namespace Strata.CommandLine

/-- What is printed, what is reported, and the exit status. Neither text has a
line break at its end. -/
structure Response where
  status : Nat := 0
  output : String := ""
  errors : String := ""
  deriving DecidableEq, Repr

/-- Why a file could not be read, as the operating system says it. -/
structure FileFault where
  text : String
  code : Nat
  deriving DecidableEq, Repr

namespace FileFault

def notFound : FileFault := ⟨"No such file or directory", 2⟩

def permissionDenied : FileFault := ⟨"Permission denied", 13⟩

def notADirectory : FileFault := ⟨"Not a directory", 20⟩

def isADirectory : FileFault := ⟨"Is a directory", 21⟩

def nameTooLong : FileFault := ⟨"File name too long", 36⟩

def message (fault : FileFault) : String :=
  fault.text ++ " (os error " ++ toString fault.code ++ ")"

end FileFault

namespace Response

/-- The status if a request fails. -/
def resolutionStatus : Nat := 1

/-- The status if there is no engine to put a request to, or no request. -/
def configurationStatus : Nat := 2

def versionText : String := "cascade 0.1.0"

def usageText : String :=
  "\n".intercalate [
    "Usage: cascade [OPTIONS] <COMMAND>",
    "",
    "Commands:",
    "  select   Print the merged configuration for a module (or null)",
    "  explain  List the fragments that would be merged, in order",
    "  check    Validate a cascade file",
    "",
    "Options:",
    "      --debug    Debug logging to stderr",
    "  -v, --verbose  Info logging to stderr",
    "  -h, --help     Print help",
    "  -V, --version  Print version"]

def ofStop : Stop → Response
  | .usage => { status := configurationStatus, errors := usageText }
  | .help => { output := usageText }
  | .version => { output := versionText }

def ofFault (fault : Fault) : Response :=
  { status := resolutionStatus, errors := fault.toJson.compact }

/-- What keeps a file from being an engine. -/
inductive Obstacle
  | unreadable (fault : FileFault)
  | noManifest
  | noEngine (fault : Fault)

def Obstacle.message (path : String) : Obstacle → String
  | .unreadable fault => "Error loading cascade file: IO error: " ++ path ++ ": " ++ fault.message
  | .noManifest => "Error loading cascade file: Parse error: not a cascade file"
  | .noEngine fault => "Error in cascade file " ++ path ++ ": " ++ fault.message

/-- The contents of a file with the manifest and the engine they describe. -/
structure Opened where
  bytes : ByteArray
  manifest : Manifest
  engine : Engine

/-- Open a file that has been read, or not. -/
def openFile (overrides : Context) : Except FileFault ByteArray → Except Obstacle Opened
  | .error fault => .error (.unreadable fault)
  | .ok bytes =>
    match Manifest.ofBytes? bytes with
    | none => .error .noManifest
    | some manifest =>
      match manifest.engine overrides with
      | .error fault => .error (.noEngine fault)
      | .ok engine => .ok ⟨bytes, manifest, engine⟩

def toSelect (engine : Engine) (query : Query) (pretty : Bool) : Response :=
  match (engine.selectWaiting [] query).1 with
  | .error fault => ofFault fault
  | .ok result =>
    let value := result.getD .null
    { output := if pretty then value.pretty else value.compact }

def toExplain (engine : Engine) (query : Query) (human : Bool) : Response :=
  match (engine.explainWaiting [] query).1.bind (Report.ofExplanation query engine.context) with
  | .error fault => ofFault fault
  | .ok report => { output := if human then report.text else report.toJson.pretty }

def toCheck (path : String) (opened : Opened) : Response :=
  let manifest := opened.manifest
  { output := "\n".intercalate [
      "Cascade file valid: " ++ path,
      "",
      "  Digest: " ++ Digest.ofBytes opened.bytes,
      "  Modules: " ++ toString manifest.modules.length,
      "  Rule sets: " ++ toString manifest.ruleSets.length,
      "  Rules: " ++ toString manifest.ruleCount,
      "  External entries: " ++ toString manifest.external.length,
      "  Configured module ids: " ++ ", ".intercalate opened.engine.store.moduleIds] }

/-- The context that a command lays over that of the file. -/
def overrides : Command → Context
  | .select inquiry _ => inquiry.overrides
  | .explain inquiry _ => inquiry.overrides
  | .check _ => {}

/-- The response to a command, given its file. -/
def ofCommand (command : Command) (file : Except FileFault ByteArray) : Response :=
  match openFile (overrides command) file with
  | .error obstacle => { status := configurationStatus, errors := obstacle.message command.path }
  | .ok opened =>
    match command with
    | .select inquiry pretty => toSelect opened.engine inquiry.query pretty
    | .explain inquiry human => toExplain opened.engine inquiry.query human
    | .check path => toCheck path opened

end Response

end Strata.CommandLine

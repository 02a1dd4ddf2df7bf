import Strata.CommandLine.Response

/-!
# The program

Reads the cascade file that the command line names, prints the response and
exits with its status.
-/

namespace Strata.CommandLine

/-- What the operating system said about a failure. -/
def FileFault.ofError : IO.Error → FileFault
  | .noFileOrDirectory .. => .notFound
  | .permissionDenied .. => .permissionDenied
  | .inappropriateType _ code _ =>
    if code.toNat = FileFault.isADirectory.code then .isADirectory else .notADirectory
  | .otherError code details => ⟨details, code.toNat⟩
  | error => ⟨toString error, 0⟩

def readFile (path : String) : IO (Except FileFault ByteArray) := do
  try
    let bytes ← IO.FS.readBinFile path
    pure (.ok bytes)
  catch error => pure (.error (FileFault.ofError error))

def respond (words : List String) : IO Response :=
  match Command.parse words with
  | .error stop => pure (.ofStop stop)
  | .ok command => do
    let file ← readFile command.path
    pure (.ofCommand command file)

/-- Print a text as lines, unless there is none. -/
def printOn (stream : IO.FS.Stream) (text : String) : IO Unit :=
  if text = "" then pure () else stream.putStrLn text

end Strata.CommandLine

def main (words : List String) : IO UInt32 := do
  let response ← Strata.CommandLine.respond words
  Strata.CommandLine.printOn (← IO.getStdout) response.output
  Strata.CommandLine.printOn (← IO.getStderr) response.errors
  pure (UInt32.ofNat response.status)

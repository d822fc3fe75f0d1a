/-
The command line on real files.

- `fileHost`: files, standard output, standard error and the clock of the machine.
- `usageLines`: what is told when help is asked for or the arguments ask for nothing.
- `main`: runs a command; arguments that ask for nothing end the program with code 2.
-/
import GraphGen.Project.Run
import Std.Time.DateTime.Timestamp

namespace GraphGen.Console

/-- the answer of an action, or nothing when it fails -/
def attempt {α : Type} (action : IO α) : IO (Option α) := do
  try
    pure (some (← action))
  catch _ => pure none

/-- whether a path leads to a directory -/
def leadsToDirectory (path : String) : IO Bool :=
  (System.mkFilePath [path]).isDir

/-- the places of all files below a directory, or the directory that cannot be searched -/
partial def searchDirectory (directory : String) : IO (Except String (List Place)) := do
  match ← attempt (System.mkFilePath [directory]).readDir with
  | none => pure (.error directory)
  | some entries =>
    let mut places : List Place := []
    for entry in entries do
      let path := Path.join directory entry.fileName
      if ← leadsToDirectory path then
        match ← searchDirectory path with
        | .error failed => return .error failed
        | .ok below => places := places ++ below.map (entry.fileName :: ·)
      else places := places ++ [[entry.fileName]]
    pure (.ok places)

/-- writes a file and creates its directory -/
def writeCreating (path text : String) : IO Unit := do
  let directory := Path.parent path
  if directory != "" then IO.FS.createDirAll directory
  IO.FS.writeFile path text

/-- the time of the clock of the machine -/
def currentInstant : IO Instant := do
  let duration := (← Std.Time.Timestamp.now).toDurationSinceUnixEpoch
  pure ⟨duration.second.val, duration.nano.val.toNat⟩

/-- files, standard output, standard error and the clock of the machine -/
def fileHost : Host IO where
  read? path := attempt (IO.FS.readFile path)
  isDirectory := leadsToDirectory
  filesBelow := searchDirectory
  write path text := do pure (← attempt (writeCreating path text)).isSome
  print := IO.println
  warn := IO.eprintln
  now := currentInstant

/-- what is told when help is asked for -/
def usageLines : List String :=
  ["Usage: qlgen [OPTIONS] <COMMAND>", "", "Commands:",
    "  generate  Generate every output file of the project",
    "  check     Check the schema, documents and plugin setup without writing",
    "  plugins   List the available plugins",
    "  version   Print version information",
    "  help      Print this message", "", "Options:",
    "  -c, --config <CONFIG>  Project file of `generate` and `check` [default: codegen.json]",
    "  -v, --verbose", "  -q, --quiet", "  -h, --help             Print help", "  -V, --version          Print version"]

/-- what is wrong with arguments -/
def usageFault : UsageError → String
  | .invalidCommand => "error: unrecognized subcommand"
  | .unknownArgument => "error: unexpected argument"
  | .invalidValue => "error: a value is required for '--config <CONFIG>' but none was supplied"
  | .tooManyValues => "error: unexpected value for an option that takes none"
  | .argumentConflict => "error: an argument cannot be used multiple times"
  | _ => "error: a subcommand is required but one was not provided"

/-- tells why arguments ask for nothing; the answer is the exit code -/
def explain : UsageError → IO UInt32
  | .displayHelp => do
    usageLines.forM IO.println
    pure 0
  | .displayVersion => do
    IO.println Host.versionLine
    pure 0
  | .helpOnMissing => do
    usageLines.forM IO.eprintln
    pure 2
  | error => do
    IO.eprintln (usageFault error)
    IO.eprintln ""
    usageLines.forM IO.eprintln
    pure 2

end GraphGen.Console

open GraphGen in
/-- runs the command that arguments ask for -/
def main (args : List String) : IO UInt32 := do
  match Invocation.parse args with
  | .ok invocation => do pure (UInt32.ofNat (← Console.fileHost.run invocation))
  | .error error => Console.explain error

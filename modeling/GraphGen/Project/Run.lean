/-
Running commands.

- `Host.generateAll`: generates and writes every output of a project. An output that fails does not keep the others
  from being written.
- `Host.checkAll`: tells what is wrong with a project and writes nothing.
- `Host.run`: runs any command.

Each gives the exit code: 0, or 1 when something failed.
-/
import GraphGen.Plugin.Standard
import GraphGen.Project.Arguments
import GraphGen.Project.Check

namespace GraphGen

variable {m : Type → Type} [Monad m]

namespace Host

/-! ## Telling -/

/-- a line that is left out when little is to be told -/
def status (host : Host m) (verbosity : Verbosity) (line : String) : m Unit :=
  if verbosity.quiet then pure () else host.print line

/-- a line that is told only when much is to be told -/
def detail (host : Host m) (verbosity : Verbosity) (line : String) : m Unit :=
  if verbosity.verbose && !verbosity.quiet then host.print line else pure ()

/-- tells an error -/
def report (host : Host m) (error : LoadError) : m Unit :=
  error.report.forM host.warn

/-- the word for a severity -/
def severityWord : Severity → String
  | .error => "error"
  | .warning => "warning"

/-- the lines of a diagnostic -/
def diagnosticLines (d : Diagnostic) : List String :=
  [s!"{severityWord d.severity}[{d.code}]: {d.title}"]
    ++ (d.origin.map fun origin => "  --> " ++ origin).toList
    ++ (d.message.map fun message => "  = " ++ message).toList

/-! ## Generating -/

/-- a project with its targets -/
def readRequests (host : Host m) (config : String) : Loading m (Project × List OutputRequest) := do
  let project ← Project.load host config
  let schema ← project.schemaText host
  let documents ← project.readDocuments host
  pure (project, project.targets schema documents)

/-- generates an output and writes it; the answer is the path -/
def writeTarget (host : Host m) (catalog : Catalog) (project : Project) (target : OutputRequest) :
    Loading m String := do
  match (generate catalog target .empty).1 with
  | .error error => throw (.codegen error)
  | .ok content =>
    let path := project.pathOf target.filename
    if ← host.write path (content ++ "\n") then pure path else throw (.unwritable path)

/-- generates an output and tells what became of it; the answer is whether it was written -/
def generateTarget (host : Host m) (verbosity : Verbosity) (project : Project) (target : OutputRequest) : m Bool := do
  host.detail verbosity ("Generating " ++ target.filename)
  let catalog := Catalog.standard (← host.now)
  match ← (host.writeTarget catalog project target).run with
  | .ok path =>
    host.status verbosity ("Generated " ++ path)
    pure true
  | .error error =>
    host.warn ("Failed " ++ target.filename)
    host.report error
    pure false

/-- generates and writes every output of a project -/
def generateAll (host : Host m) (verbosity : Verbosity) (config : String) : m Nat := do
  match ← (host.readRequests config).run with
  | .error error =>
    host.report error
    pure 1
  | .ok (project, targets) =>
    let written ← targets.mapM (host.generateTarget verbosity project)
    let failed := (written.filter (!·)).length
    if failed = 0 then pure 0
    else
      host.warn s!"Error: {failed} of {targets.length} output(s) failed"
      pure 1

/-! ## Checking -/

/-- a document file of a project, which is named before it is read -/
def readDocument (host : Host m) (verbosity : Verbosity) (path : String) : Loading m ReadDocument := do
  host.detail verbosity ("Checking " ++ path)
  pure (.ofText path (← host.read path))

/-- what is wrong with a project -/
def diagnose (host : Host m) (verbosity : Verbosity) (config : String) : Loading m Diagnosis := do
  let project ← Project.load host config
  let sdl ← project.schemaText host
  host.detail verbosity "Checking schema"
  let paths ← project.documentPaths host
  let documents ← paths.mapM (host.readDocument verbosity)
  let diagnosis := project.diagnose (.standard (← host.now)) sdl documents
  diagnosis.targets.forM fun target => host.detail verbosity ("Checking " ++ target.filename)
  pure diagnosis

/-- tells what is wrong with a project -/
def checkAll (host : Host m) (verbosity : Verbosity) (config : String) : m Nat := do
  match ← (host.diagnose verbosity config).run with
  | .error error =>
    host.report error
    pure 1
  | .ok diagnosis =>
    (diagnosis.diagnostics.flatMap diagnosticLines).forM host.warn
    let errors := (Diagnostic.errors diagnosis.diagnostics).length
    if errors = 0 then
      host.status verbosity s!"Success: {diagnosis.targets.length} output(s) checked"
      pure 0
    else
      host.warn s!"Error: {errors} error(s) found"
      pure 1

/-! ## Commands -/

/-- the name and the version of the program -/
def versionLine : String := "qlgen 0.1.0"

/-- the lines that list the plugins -/
def pluginLines (catalog : Catalog) : List String :=
  "Available plugins:" :: catalog.names.map ("  " ++ ·)

/-- runs a command -/
def run (host : Host m) (invocation : Invocation) : m Nat := do
  match invocation.command with
  | .generate config => host.generateAll invocation.verbosity config
  | .check config => host.checkAll invocation.verbosity config
  | .plugins =>
    (pluginLines (.standard (← host.now))).forM host.print
    pure 0
  | .version =>
    host.print versionLine
    pure 0

end Host

end GraphGen

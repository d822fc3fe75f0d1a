/-
What keeps a project from being loaded or its outputs from being written, and how it is told.

- `LoadError`: a file that cannot be read or written, a malformed project file, or an error of the library.
- `LoadError.report`: the lines that tell an error with the errors that it wraps and advice on it.
-/
import GraphGen.Error
import GraphGen.Project.File

namespace GraphGen

/-- the errors that an error wraps, from the outside in -/
def Error.causes : Error → List Error
  | .pluginValidation _ cause => cause :: causes cause
  | .pluginGeneration _ cause => cause :: causes cause
  | _ => []

/-- what keeps a project from being loaded or an output from being written -/
inductive LoadError where
  | unreadable (path : String)
  | unwritable (path : String)
  | malformed (path : String) (fault : ProjectFault)
  | codegen (error : Error)
  deriving DecidableEq, Inhabited

namespace LoadError

/-- the code under which an error is reported -/
def code : LoadError → String
  | unreadable _ => "qlgen::config::io"
  | unwritable _ => "qlgen::config::write"
  | malformed _ _ => "qlgen::config::parse"
  | codegen error => error.code

/-- the wording of an error -/
def message : LoadError → String
  | unreadable path => s!"cannot read `{path}`"
  | unwritable path => s!"cannot write `{path}`"
  | malformed path _ => s!"invalid project file `{path}`"
  | codegen error => error.message

/-- a project file that has what is needed -/
def sample : String :=
  "\x7b \"schema\": \"schema.graphql\", \"generates\": "
    ++ "\x7b \"types.ts\": \x7b \"plugins\": [\"typescript\"] \x7d \x7d \x7d"

/-- advice on how to avoid an error -/
def help : LoadError → Option String
  | unreadable _ => none
  | unwritable _ => none
  | malformed _ _ => some ("a project file needs `schema` and `generates`, e.g. " ++ sample)
  | codegen error => error.help

/-- the errors that an error wraps -/
def causes : LoadError → List Error
  | codegen error => error.causes
  | _ => []

/-- the lines that tell an error; the last one is empty -/
def report (error : LoadError) : List String :=
  [s!"report[{error.code}]: {error.message}"]
    ++ error.causes.map (fun cause => "  cause: " ++ cause.message)
    ++ (error.help.map fun help => "  help: " ++ help).toList
    ++ [""]

end LoadError

end GraphGen

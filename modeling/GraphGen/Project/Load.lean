/-
Loading a project.

- `Project`: the content of a project file and the directory that its paths are seen from.
- `Project.load`: a project from its file.
- `schemaText`, `documentPaths`, `readDocuments`: what the project file names.
- `targets`: one target for every output, in the order of the project file.
- `pathOf`: where an output is written.

Documents are taken in the order of the project file. A directory stands for the document files below it, which are
ordered by the names that lead to them.
-/
import GraphGen.Project.Fault
import GraphGen.Project.Host

namespace GraphGen

/-- the content of a project file and the directory that its paths are seen from -/
structure Project where
  root : String
  config : ProjectFile
  deriving Inhabited

/-- an action that can fail to load something -/
abbrev Loading (m : Type → Type) (α : Type) := ExceptT LoadError m α

variable {m : Type → Type} [Monad m]

/-- the text of a file, which must be there -/
def Host.read (host : Host m) (path : String) : Loading m String := do
  match ← host.read? path with
  | some text => pure text
  | none => throw (.unreadable path)

/-- whether a file name has the ending of a document -/
def isDocumentName (name : String) : Bool :=
  (Path.extension? name).any fun extension => ["graphql", "gql"].contains extension

/-- whether the last name of a place has the ending of a document -/
def isDocumentPlace (place : Place) : Bool :=
  place.getLast?.any isDocumentName

/-- whether a place stands before another or is the same, name by name -/
def Place.notAfter : Place → Place → Bool
  | [], _ => true
  | _ :: _, [] => false
  | a :: as, b :: bs => if a = b then notAfter as bs else decide (a ≤ b)

/-- the document files among files below a directory, in the order of their places -/
def documentsAmong (directory : String) (places : List Place) : List String :=
  ((places.filter isDocumentPlace).mergeSort Place.notAfter).map (Path.joinAll directory)

/-- the files that an entry of the documents stands for: the documents of a directory, or the file itself -/
def Host.documentPaths (host : Host m) (path : String) : Loading m (List String) := do
  if ← host.isDirectory path then
    match ← host.filesBelow path with
    | .ok places => pure (documentsAmong path places)
    | .error directory => throw (.unreadable directory)
  else pure [path]

namespace Project

/-- a project from its file -/
def load (host : Host m) (path : String) : Loading m Project := do
  let text ← host.read path
  match ProjectFile.read text with
  | .ok config => pure ⟨Path.parent path, config⟩
  | .error fault => throw (.malformed path fault)

/-- a path of the project file as seen from the working directory -/
def locate (project : Project) (path : String) : String :=
  Path.join project.root path

/-- the schema files as one text -/
def schemaText (project : Project) (host : Host m) : Loading m String := do
  let texts ← project.config.schema.mapM fun path => host.read (project.locate path)
  pure (String.intercalate "\n" texts)

/-- the document files in the order of the project file -/
def documentPaths (project : Project) (host : Host m) : Loading m (List String) := do
  let found ← project.config.documents.mapM fun path => host.documentPaths (project.locate path)
  pure found.flatten

/-- the documents; the first file that cannot be read or parsed ends the loading -/
def readDocuments (project : Project) (host : Host m) : Loading m (List LocatedDocument) := do
  let paths ← project.documentPaths host
  paths.mapM fun path => do
    let text ← host.read path
    match LocatedDocument.parse path text with
    | .ok source => pure source
    | .error error => throw (.codegen error)

/-- the target of an output -/
def target (project : Project) (schema : String) (documents : List LocatedDocument) (filename : String)
    (output : OutputSpec) : OutputRequest where
  filename
  schema
  documents
  outsideFragments := []
  plugins := output.plugins
  config := overlay project.config.config output.config

/-- one target for every output, in the order of the project file -/
def targets (project : Project) (schema : String) (documents : List LocatedDocument) : List OutputRequest :=
  project.config.generates.entries.map fun (filename, output) => project.target schema documents filename output

/-- where an output is written -/
def pathOf (project : Project) (filename : String) : String :=
  project.locate filename

end Project

end GraphGen

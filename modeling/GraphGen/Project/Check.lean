/-
Checking a project.

- `findingsOf`: what is wrong with an operation: its selections must have shapes, and it should have a name.
- `Diagnosis`: what was found, and the targets that were looked at.
- `Project.diagnose`: first whether the schema, the documents and their fragments can be read, then the operations, then
  the targets. A later stage is left out when an earlier one found an error, since it would find the same again.
-/
import GraphGen.Diagnostic
import GraphGen.Project.Load
import GraphGen.Shape.Resolve

namespace GraphGen

/-! ## Operations -/

/-- the warning about an operation without a name -/
def anonymousWarning (location : String) (op : Operation) : Diagnostic where
  severity := .warning
  code := "qlgen::anonymous_operation"
  title := "anonymous " ++ op.kind.typeName
  message := some s!"its types are named `Unnamed_<n>_{op.kind.typeName}`"
  source := some location
  position := some op.position

/-- whether the selections of an operation have shapes on the root type, which the schema must have -/
def resolveOperation (schema : Schema) (fragments : FragmentIndex) (op : Operation) : Except Error Unit :=
  match schema.rootName? op.kind with
  | none => .error (.unknownType op.kind.typeName)
  | some root =>
    let ctx : ShapeContext := ⟨schema, fragments, .plain⟩
    (ShapeContext.runResolve (ctx.resolve root [op.selections]) []).1.map fun _ => ()

/-- what is wrong with an operation of a document -/
def findingsOf (schema : Schema) (fragments : FragmentIndex) (location : String) (op : Operation) :
    List Diagnostic :=
  (if op.name.isNone then [anonymousWarning location op] else []) ++
    match resolveOperation schema fragments op with
    | .ok _ => []
    | .error error => [{ Diagnostic.inSource error location with position := some op.position }]

/-- what is wrong with the operations of documents -/
def operationFindings (schema : Schema) (fragments : FragmentIndex) (documents : List LocatedDocument) :
    List Diagnostic :=
  documents.flatMap fun source => source.operations.flatMap (findingsOf schema fragments source.location)

/-! ## Projects -/

/-- what was found, and the targets that were looked at -/
structure Diagnosis where
  diagnostics : List Diagnostic
  targets : List OutputRequest
  deriving Inhabited

/-- the diagnostic of a failed result -/
def failureIn {α : Type} (source : String) : Except Error α → List Diagnostic
  | .ok _ => []
  | .error error => [.inSource error source]

/-- a document file and what reading it gave -/
structure ReadDocument where
  path : String
  result : Except Error LocatedDocument

namespace ReadDocument

/-- what the text of a document file gives -/
def ofText (path text : String) : ReadDocument :=
  ⟨path, LocatedDocument.parse path text⟩

/-- the diagnostic of a document that cannot be read -/
def failure (document : ReadDocument) : List Diagnostic :=
  failureIn document.path document.result

end ReadDocument

/-- what is wrong with targets -/
def requestFindings (catalog : Catalog) (targets : List OutputRequest) : List Diagnostic :=
  targets.flatMap fun target => (problemsOf catalog target).map fun error => .inSource error target.filename

/-- what is wrong with a project whose schema and documents have the given texts -/
def Project.diagnose (project : Project) (catalog : Catalog) (sdl : String) (documents : List ReadDocument) :
    Diagnosis :=
  let sources := successes (documents.map (·.result))
  let schema := Schema.parse sdl
  let fragments := FragmentIndex.ofDocuments sources []
  let unread := failureIn (String.intercalate ", " project.config.schema) schema
    ++ documents.flatMap ReadDocument.failure
    ++ failureIn "documents" fragments
  match schema, fragments with
  | .ok schema, .ok fragments =>
    if Diagnostic.anyError unread then ⟨unread, []⟩
    else
      let operations := operationFindings schema fragments sources
      if Diagnostic.anyError operations then ⟨unread ++ operations, []⟩
      else
        let targets := project.targets sdl sources
        ⟨unread ++ operations ++ requestFindings catalog targets, targets⟩
  | _, _ => ⟨unread, []⟩

end GraphGen

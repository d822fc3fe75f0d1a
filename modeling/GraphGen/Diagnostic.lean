/-
Diagnostics: what is reported about a project.

- `Diagnostic`: severity, code, title and further text, with the document and position it belongs to.
- `Diagnostic.origin`: the document and position as far as they are known.
- `Diagnostic.ofError`: the diagnostic of an error.
- `errors`, `warnings`, `anyError`: the diagnostics of a list by severity.
-/
import GraphGen.Error
import GraphGen.Syntax.Token

namespace GraphGen

/-- whether a diagnostic keeps output from being generated -/
inductive Severity where
  | error
  | warning
  deriving DecidableEq, Inhabited

/-- what is reported -/
structure Diagnostic where
  severity : Severity
  code : String
  title : String
  message : Option String := none
  /-- the document -/
  source : Option String := none
  position : Option Position := none
  deriving DecidableEq, Inhabited

namespace Diagnostic

/-- the diagnostic of an error: its code, its wording, and its advice as further text -/
def ofError (error : Error) : Diagnostic :=
  { severity := .error, code := error.code, title := error.message, message := error.help }

/-- the diagnostic of an error in a document -/
def inSource (error : Error) (source : String) : Diagnostic :=
  { ofError error with source := some source }

/-- a position as line and column -/
def positionText (position : Position) : String :=
  toString position.line ++ ":" ++ toString position.column

/-- the document and the position as far as they are known -/
def origin (d : Diagnostic) : Option String :=
  match d.source, d.position with
  | some source, some position => some (source ++ ":" ++ positionText position)
  | some source, none => some source
  | none, some position => some (positionText position)
  | none, none => none

/-- the diagnostics that keep output from being generated -/
def errors (diagnostics : List Diagnostic) : List Diagnostic :=
  diagnostics.filter fun d => d.severity = .error

/-- the other diagnostics -/
def warnings (diagnostics : List Diagnostic) : List Diagnostic :=
  diagnostics.filter fun d => d.severity = .warning

/-- whether a diagnostic keeps output from being generated -/
def anyError (diagnostics : List Diagnostic) : Bool :=
  diagnostics.any fun d => d.severity = .error

end Diagnostic

end GraphGen

/-
Comments in the form of the languages with braces.

- `docComment`: a description as one comment, on one line when it has one.
-/
import GraphGen.Output.Writer

namespace GraphGen

/-- the lines of a description without blank lines around them and blank characters at their ends -/
def descriptionLines (description : String) : List String :=
  (Text.lines (Text.trim description)).map Text.trimEnd

/-- a line of a comment of several lines -/
def commentLine (line : String) : String :=
  if line.isEmpty then " *\n" else " * " ++ line ++ "\n"

/-- a description as a comment, and no text for a blank description -/
def docComment (description : String) : String :=
  match descriptionLines description with
  | [] => ""
  | [line] => "/** " ++ line ++ " */"
  | lines => "/**\n" ++ String.join (lines.map commentLine) ++ " */"

/-- the steps that write a description as a comment, when there is one -/
def commentSteps : Option String → List Step
  | some description => [.lines (docComment description)]
  | none => []

end GraphGen

/-
Writing indented lines.

- `Writer`: the text written so far and the level of indentation.
- `line`, `blank`, `lines`, `indent`, `dedent`: what a writer does.
- `Step`: the same as data, and blocks, whose body stands one level deeper between an opening and a closing line.
- `Step.runAll?`: a writer after some steps, which fail where a block ends below the margin.
- `Writer.run`: a writer after some steps, the same as before when these fail.
- `Writer.text`: the written text without the line feeds at its end.
-/
import GraphGen.Text.Blank

namespace GraphGen

/-- how a level of indentation is written -/
structure IndentStyle where
  /-- the spaces of one level -/
  indentSize : Nat := 2
  /-- whether a level is a tab instead -/
  useTabs : Bool := false
  deriving DecidableEq, Inhabited

/-- the text written so far and the level of indentation -/
structure Writer where
  options : IndentStyle
  level : Nat
  output : String
  deriving DecidableEq, Inhabited

/-- what is to be written -/
inductive Step where
  | line (text : String)
  | blank
  | lines (text : String)
  | indent
  | dedent
  | block (opening closing : String) (body : List Step)
  deriving Inhabited

/-- the white space in front of a line at a level -/
def IndentStyle.margin (options : IndentStyle) (level : Nat) : String :=
  if options.useTabs then String.ofList (List.replicate level '\t')
  else String.ofList (List.replicate (level * options.indentSize) ' ')

namespace Writer

/-- a writer that has written nothing -/
def start (options : IndentStyle) : Writer := ⟨options, 0, ""⟩

/-- writes an indented line; an empty line is not indented -/
def line (w : Writer) (text : String) : Writer :=
  let margin := if text.isEmpty then "" else w.options.margin w.level
  { w with output := w.output ++ margin ++ text ++ "\n" }

/-- writes an empty line -/
def blank (w : Writer) : Writer :=
  { w with output := w.output ++ "\n" }

/-- writes the lines of a text, each indented -/
def lines (w : Writer) (text : String) : Writer :=
  (Text.lines text).foldl line w

/-- goes one level deeper -/
def indent (w : Writer) : Writer :=
  { w with level := w.level + 1 }

/-- goes one level back, but not beyond the margin -/
def dedent (w : Writer) : Writer :=
  { w with level := w.level - 1 }

/-- leaves a block: one level back, which fails at the margin -/
def leave? (w : Writer) : Option Writer :=
  match w.level with
  | 0 => none
  | level + 1 => some { w with level }

/-- a text without the line feeds at its end -/
def stripEnd (text : String) : String :=
  String.ofList (text.toList.reverse.dropWhile (· == '\n')).reverse

/-- the written text without the line feeds at its end -/
def text (w : Writer) : String :=
  stripEnd w.output

end Writer

mutual

/-- a writer after a step, if the step does not fail -/
def Step.run? : Step → Writer → Option Writer
  | line text, w => some (w.line text)
  | blank, w => some w.blank
  | lines text, w => some (w.lines text)
  | indent, w => some w.indent
  | dedent, w => some w.dedent
  | block opening closing body, w =>
    (Step.runAll? body (w.line opening).indent).bind fun inner => inner.leave?.map fun outer => outer.line closing

/-- a writer after some steps, if none of them fails -/
def Step.runAll? : List Step → Writer → Option Writer
  | [], w => some w
  | step :: rest, w => (Step.run? step w).bind fun next => Step.runAll? rest next

end

/-- a writer after some steps; steps that fail leave no trace -/
def Writer.run (w : Writer) (steps : List Step) : Writer :=
  (Step.runAll? steps w).getD w

/-- the text of some steps, indented by two spaces a level -/
def Step.text (steps : List Step) : String :=
  ((Writer.start { }).run steps).text

end GraphGen

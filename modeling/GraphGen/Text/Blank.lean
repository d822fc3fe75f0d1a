/-
Blank characters and lines of text.

- `isBlank`: the characters of the White_Space property.
- `trimEnd`, `trim`: a text without the blank characters at its ends.
- `lines`: a text cut at its line ends, where a line feed or a carriage return and a line feed end a line, and a line
  end at the end of the text opens no further line.
-/
namespace GraphGen.Text

/-- the characters of the White_Space property -/
def isBlank (c : Char) : Bool :=
  let n := c.toNat
  (0x09 ≤ n && n ≤ 0x0d) || n == 0x20 || n == 0x85 || n == 0xa0 || n == 0x1680 || (0x2000 ≤ n && n ≤ 0x200a)
    || n == 0x2028 || n == 0x2029 || n == 0x202f || n == 0x205f || n == 0x3000

/-! ## Ends of a text -/

/-- the characters from the first one on that is not blank -/
def dropBlank (cs : List Char) : List Char :=
  cs.dropWhile isBlank

/-- the characters up to the last one that is not blank -/
def dropBlankEnd (cs : List Char) : List Char :=
  (cs.reverse.dropWhile isBlank).reverse

/-- a text without its trailing blank characters -/
def trimEnd (s : String) : String :=
  String.ofList (dropBlankEnd s.toList)

/-- a text without its leading and trailing blank characters -/
def trim (s : String) : String :=
  String.ofList (dropBlankEnd (dropBlank s.toList))

/-! ## Lines -/

/-- a line without the carriage return before its line feed -/
def dropReturn (line : List Char) : List Char :=
  if line.getLast? = some '\r' then line.dropLast else line

/-- cuts at line feeds; `line` holds the characters of the current line, last one first -/
def cutLines (line : List Char) : List Char → List (List Char)
  | [] => if line.isEmpty then [] else [line.reverse]
  | c :: rest => if c = '\n' then dropReturn line.reverse :: cutLines [] rest else cutLines (c :: line) rest

/-- the lines of a text without their line ends -/
def lines (s : String) : List String :=
  (cutLines [] s.toList).map String.ofList

end GraphGen.Text

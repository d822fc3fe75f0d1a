/-
File paths as text.

- `Path.isAbsolute`, `Path.pieces`: the pieces of a path between slashes.
- `Path.join`: a path as seen from a directory.
- `Path.parent`: the directory of a file.
- `Path.extension?`: the ending of a file name.

A path is kept as it was given: an empty piece and the piece `.` stay where they are, and `..` goes up. Only who reads
files gives them a meaning.
-/
import GraphGen.Text.Pieces

namespace GraphGen.Path

/-- whether a path starts at the root of all files -/
def isAbsolute (path : String) : Bool :=
  Text.startsWith "/" path

/-- the pieces of a path between slashes -/
def pieces (path : String) : List String :=
  Text.splitAll '/' path

/-- whether a piece leads nowhere else -/
def stays (piece : String) : Bool :=
  piece = "" || piece = "."

/-- whether a piece names an entry of a directory: it leads elsewhere but not up, and is no longer than a name can be -/
def isName (piece : String) : Bool :=
  !stays piece && piece != ".." && piece.utf8ByteSize ≤ 255 && !piece.toList.contains '\x00'

/-- a path as seen from a directory; an absolute path stands for itself -/
def join (directory path : String) : String :=
  if isAbsolute path || directory = "" then path
  else if Text.endsWith "/" directory then directory ++ path
  else directory ++ "/" ++ path

/-- a path as seen from a directory, name by name -/
def joinAll (directory : String) (names : List String) : String :=
  names.foldl join directory

/-- the pieces up to the last one that leads elsewhere -/
def trimEnd (pieces : List String) : List String :=
  (pieces.reverse.dropWhile stays).reverse

/-- the pieces of the directory of a file -/
def directoryPieces (pieces : List String) : List String :=
  trimEnd (trimEnd pieces).dropLast

/-- the directory of a file; empty for a bare name -/
def parent (path : String) : String :=
  match pieces path with
  | "" :: rest => if (trimEnd rest).isEmpty then "" else "/" ++ String.intercalate "/" (directoryPieces rest)
  | "." :: rest => if (trimEnd rest).isEmpty then "" else String.intercalate "/" ("." :: directoryPieces rest)
  | all => String.intercalate "/" (directoryPieces all)

/-- what follows the last dot of a file name, unless nothing stands before that dot -/
def extension? (name : String) : Option String :=
  match (Text.splitAll '.' name).reverse with
  | [] | [_] | [_, ""] => none
  | last :: _ => some last

end GraphGen.Path

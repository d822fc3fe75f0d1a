/-
Files and directories in memory.

- `FileTree`: a file with its text, or a directory with its entries.
- `FileTree.find?`, `FileTree.put`: what stands at a place, and a tree with something else there.
- `FileTree.files`: every file below, with the names that lead to it.
- `FileSystem`: a tree and the directory from which paths are followed.
- `read?`, `isDirectory`, `filesBelow?`, `write`: what a program does with files.

A path is followed piece by piece, and each step needs a directory to start from: `missing/../file` leads nowhere.
Writing creates the directories on the way; those that were created before a failure stay.
-/
import GraphGen.Project.Path
import GraphGen.Table

namespace GraphGen

/-- a file with its text, or a directory with its entries -/
inductive FileTree where
  | file (text : String)
  | directory (entries : List (String × FileTree))
  deriving Inhabited

/-- the names that lead to a file or directory from the root of a tree -/
abbrev Place := List String

namespace FileTree

/-- the directory without entries -/
def empty : FileTree := .directory []

/-- the text of a file -/
def text? : FileTree → Option String
  | .file text => some text
  | .directory _ => none

/-- whether the tree is a directory -/
def isDirectory : FileTree → Bool
  | .file _ => false
  | .directory _ => true

/-- what stands at a place -/
def find? : FileTree → Place → Option FileTree
  | tree, [] => some tree
  | .directory entries, name :: rest =>
    match entries.lookup name with
    | some entry => find? entry rest
    | none => none
  | .file _, _ :: _ => none

/-- the tree with `new` at a place, and with directories on the way there; a file on the way stays -/
def put (new : FileTree) : FileTree → Place → FileTree
  | _, [] => new
  | .directory entries, name :: rest =>
    .directory (insertEntry name (put new ((entries.lookup name).getD empty) rest) entries)
  | .file text, _ :: _ => .file text

mutual

/-- every file of a tree, with the names that lead to it -/
def files : FileTree → List (Place × String)
  | .file text => [([], text)]
  | .directory entries => filesOf entries

/-- every file of the entries of a directory -/
def filesOf : List (String × FileTree) → List (Place × String)
  | [] => []
  | (name, tree) :: rest => (files tree).map (fun (place, text) => (name :: place, text)) ++ filesOf rest

end

end FileTree

/-- files, and the directory from which paths are followed -/
structure FileSystem where
  root : FileTree
  workingDirectory : Place
  deriving Inhabited

namespace FileSystem

/-- where a path starts -/
def start (fs : FileSystem) (path : String) : Place :=
  if Path.isAbsolute path then [] else fs.workingDirectory

/-- whether there is a directory at a place -/
def hasDirectory (fs : FileSystem) (place : Place) : Bool :=
  (fs.root.find? place).any (·.isDirectory)

/-- the place that a piece of a path leads to from a directory; `..` stays at the root -/
def step (place : Place) (piece : String) : Place :=
  if Path.stays piece then place
  else if piece = ".." then place.dropLast
  else place ++ [piece]

/-- the place that the pieces of a path lead to -/
def follow (fs : FileSystem) (place : Place) : List String → Option Place
  | [] => some place
  | piece :: rest => if fs.hasDirectory place then follow fs (step place piece) rest else none

/-- what a path leads to -/
def find? (fs : FileSystem) (path : String) : Option FileTree :=
  if path = "" then none
  else
    match fs.follow (fs.start path) (Path.pieces path) with
    | some place => fs.root.find? place
    | none => none

/-! ## Reading -/

/-- the text of a file -/
def read? (fs : FileSystem) (path : String) : Option String :=
  (fs.find? path).bind FileTree.text?

/-- whether a path leads to a directory -/
def isDirectory (fs : FileSystem) (path : String) : Bool :=
  (fs.find? path).any FileTree.isDirectory

/-- the places of all files of a directory and the directories below it -/
def filesBelow? (fs : FileSystem) (path : String) : Option (List Place) :=
  match fs.find? path with
  | some (.directory entries) => some ((FileTree.filesOf entries).map Prod.fst)
  | _ => none

/-! ## Writing -/

/-- follows pieces and creates the directories that are missing, with the place that is reached unless a file or an
impossible name is in the way -/
def makeDirectories (fs : FileSystem) (place : Place) : List String → FileSystem × Option Place
  | [] => (fs, some place)
  | piece :: rest =>
    let next := step place piece
    if fs.hasDirectory next then makeDirectories fs next rest
    else if (fs.root.find? next).isNone && Path.isName piece then
      makeDirectories { fs with root := FileTree.put .empty fs.root next } next rest
    else (fs, none)

/-- writes a file at a place that is reached, unless a directory stands there -/
def writeAt (fs : FileSystem) (place : Place) (text : String) : FileSystem × Bool :=
  if fs.hasDirectory place then (fs, false) else ({ fs with root := FileTree.put (.file text) fs.root place }, true)

/-- writes a file and creates its directory; the answer is whether it was written -/
def write (fs : FileSystem) (path text : String) : FileSystem × Bool :=
  let pieces := Path.pieces path
  let (made, directory?) := fs.makeDirectories (fs.start path) (Path.trimEnd pieces).dropLast
  match directory?, pieces.getLast? with
  | some directory, some name =>
    if Path.isName name then made.writeAt (directory ++ [name]) text else (made, false)
  | _, _ => (made, false)

end FileSystem

end GraphGen

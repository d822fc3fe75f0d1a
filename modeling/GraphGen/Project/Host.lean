/-
What a command needs of its surroundings.

- `Host m`: files, two outputs for lines and a clock, as actions of the monad `m`.
- `Session`: surroundings in memory. Its lines are kept in the order in which they were written.
- `Session.host`: a session as a host.

Commands are written for any host, so that a run on real files and a run in memory are the same program.
-/
import GraphGen.Project.FileTree
import GraphGen.Time.Calendar

namespace GraphGen

/-- files, two outputs for lines and a clock -/
structure Host (m : Type → Type) where
  /-- the text of a file -/
  read? : String → m (Option String)
  isDirectory : String → m Bool
  /-- the places of all files of a directory and the directories below it, or the directory that cannot be searched -/
  filesBelow : String → m (Except String (List Place))
  /-- writes a file and creates its directory; the answer is whether it was written -/
  write : String → String → m Bool
  /-- a line for the user -/
  print : String → m Unit
  /-- a line about something wrong -/
  warn : String → m Unit
  now : m Instant

/-- surroundings in memory -/
structure Session where
  files : FileSystem
  clock : Instant
  printed : List String := []
  warned : List String := []
  deriving Inhabited

namespace Session

/-- writes a file of the session -/
def write (path text : String) (session : Session) : Bool × Session :=
  let (files, written) := session.files.write path text
  (written, { session with files })

/-- a session as a host -/
def host : Host (StateM Session) where
  read? path := do pure ((← get).files.read? path)
  isDirectory path := do pure ((← get).files.isDirectory path)
  filesBelow path := do
    match (← get).files.filesBelow? path with
    | some places => pure (.ok places)
    | none => pure (.error path)
  write path text := modifyGet (write path text)
  print line := modify fun session => { session with printed := session.printed ++ [line] }
  warn line := modify fun session => { session with warned := session.warned ++ [line] }
  now := do pure (← get).clock

end Session

end GraphGen

/-
The project file: where the schema and the documents are, and what is generated from them.

- `OutputSpec`: the plugins of an output file and what they are configured with.
- `ProjectFile`: schema files, documents, a configuration for all outputs, and the outputs.
- `ProjectFile.decode`: the content of a project file, with every mention of a member.
- `ProjectFile.read`: the content of a text.

A member that is not known or is mentioned twice is refused. Members are read in the order in which they stand in the
file, so that the first fault is the one that is told. Both records may also be given as an array of their members.
-/
import GraphGen.Json.Reader
import GraphGen.Plugin.Run

namespace GraphGen

/-- what is wrong with a project file -/
inductive ProjectFault where
  /-- the text is no JSON, or a value has another form than is asked for -/
  | malformed
  /-- an entry for a plugin names none or several -/
  | pluginCount (found : Nat)
  deriving DecidableEq, Inhabited

/-- the wording of a fault, where it has one of its own -/
def ProjectFault.message? : ProjectFault → Option String
  | malformed => none
  | pluginCount found => some s!"a plugin entry names exactly one plugin, found {found}"

/-- an output of a project -/
structure OutputSpec where
  plugins : List PluginUse
  /-- what the plugins of this output share -/
  config : Json
  deriving Inhabited

/-- the content of a project file -/
structure ProjectFile where
  /-- schema files, which are read as one text -/
  schema : List String
  /-- document files and directories -/
  documents : List String
  /-- what the plugins of all outputs share -/
  config : Json
  /-- the outputs under their paths -/
  generates : Table OutputSpec
  deriving Inhabited

/-- a reading of a part of a project file -/
abbrev ProjectReading (α : Type) := Json → Except ProjectFault α

namespace ProjectReading

/-- a value of the form that is asked for -/
def required {α : Type} (read? : Json → Option α) : ProjectReading α := fun value =>
  match read? value with
  | some found => .ok found
  | none => .error .malformed

/-- one path or a list of them -/
def paths : ProjectReading (List String)
  | .str path => .ok [path]
  | value => required Json.asStrings? value

/-- any value -/
def anything : ProjectReading Json := fun value => .ok value.canonical

/-- a plugin: its name, or an object with its name as the only key and its configuration -/
def plugin : ProjectReading PluginUse
  | .str name => .ok { name }
  | .obj members =>
    match (Table.ofList members).entries with
    | [(name, config)] => .ok { name, config := config.canonical }
    | entries => .error (.pluginCount entries.length)
  | _ => .error .malformed

/-- a list of plugins -/
def plugins : ProjectReading (List PluginUse)
  | .arr items => items.mapM plugin
  | _ => .error .malformed

/-- a member of a record that may be given once -/
def once {α : Type} (found : Option α) (reading : ProjectReading α) (value : Json) : Except ProjectFault (Option α) :=
  if found.isSome then .error .malformed else (reading value).map some

/-- a member of a record that must be given -/
def given {α : Type} (found : Option α) : Except ProjectFault α :=
  match found with
  | some value => .ok value
  | none => .error .malformed

/-- the members of a record: those of an object, or the items of an array under `names` in their order -/
def members (names : List String) : ProjectReading (List (String × Json))
  | .obj members => .ok members
  | .arr items => .ok (names.zip items)
  | _ => .error .malformed

/-- refuses an array with more items than the record has members -/
def atMost (names : List String) : ProjectReading Unit
  | .arr items => if items.length ≤ names.length then .ok () else .error .malformed
  | _ => .ok ()

end ProjectReading

open ProjectReading

namespace OutputSpec

/-- the members of an output that were read so far -/
structure Draft where
  plugins : Option (List PluginUse) := none
  config : Option Json := none

/-- reads a member -/
def Draft.enter (draft : Draft) (member : String × Json) : Except ProjectFault Draft :=
  let (name, value) := member
  match name with
  | "plugins" => do pure { draft with plugins := ← once draft.plugins ProjectReading.plugins value }
  | "config" => do pure { draft with config := ← once draft.config anything value }
  | _ => .error .malformed

/-- the names of the members -/
def memberNames : List String := ["plugins", "config"]

/-- an output -/
def decode : ProjectReading OutputSpec := fun value => do
  let draft ← (← members memberNames value).foldlM Draft.enter {}
  let plugins ← given draft.plugins
  atMost memberNames value
  pure ⟨plugins, draft.config.getD .null⟩

end OutputSpec

/-- the outputs under their paths; a path that is mentioned again keeps its place and takes the new output -/
def ProjectReading.outputs : ProjectReading (Table OutputSpec)
  | .obj members => do
    let entries ← members.mapM fun (path, value) => do pure (path, ← OutputSpec.decode value)
    pure (Table.ofList entries)
  | _ => .error .malformed

namespace ProjectFile

/-- the members of a project file that were read so far -/
structure Draft where
  schema : Option (List String) := none
  documents : Option (List String) := none
  config : Option Json := none
  generates : Option (Table OutputSpec) := none

/-- reads a member -/
def Draft.enter (draft : Draft) (member : String × Json) : Except ProjectFault Draft :=
  let (name, value) := member
  match name with
  | "schema" => do pure { draft with schema := ← once draft.schema paths value }
  | "documents" => do pure { draft with documents := ← once draft.documents paths value }
  | "config" => do pure { draft with config := ← once draft.config anything value }
  | "generates" => do pure { draft with generates := ← once draft.generates outputs value }
  | _ => .error .malformed

/-- the names of the members -/
def memberNames : List String := ["schema", "documents", "config", "generates"]

/-- the content of a project file -/
def decode : ProjectReading ProjectFile := fun value => do
  let draft ← (← members memberNames value).foldlM Draft.enter {}
  let schema ← given draft.schema
  let generates ← given draft.generates
  atMost memberNames value
  pure ⟨schema, draft.documents.getD [], draft.config.getD .null, generates⟩

/-- the content of a text -/
def read (text : String) : Except ProjectFault ProjectFile :=
  match Json.parse? text with
  | some value => decode value
  | none => .error .malformed

end ProjectFile

end GraphGen

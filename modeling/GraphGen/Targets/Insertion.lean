/-
Configured text in the output.

- `Placement`: before all content, among it, or after it.
- `InsertionOptions`: the lines and their placement.
- `Plugin.insertion`: the plugin that puts the lines there.
-/
import GraphGen.Config.Decode
import GraphGen.Plugin.Basic

namespace GraphGen

/-- where text is inserted -/
inductive Placement where
  | prepend
  | content
  | append
  deriving DecidableEq, Inhabited

/-- the written name of a placement -/
def Placement.name : Placement → String
  | prepend => "prepend"
  | content => "content"
  | append => "append"

/-- the placements under their names -/
def Placement.choices : List (String × Placement) :=
  [prepend, content, append].map fun placement => (placement.name, placement)

/-- the inserted lines and where they stand -/
structure InsertionOptions where
  content : List String
  placement : Placement
  deriving DecidableEq, Inhabited

namespace InsertionOptions

/-- one line or a list of lines -/
def contentLines? : Json → Option (List String)
  | .str line => some [line]
  | value => value.asStrings?

/-- the options among the members of an object; the content is required -/
def ofMembers? (members : List (String × Json)) : Option InsertionOptions := do
  let content ← (members.lookup "content").bind contentLines?
  match Config.field members "placement" (Config.oneOf Placement.choices) .prepend with
  | .ok placement => some ⟨content, placement⟩
  | .error _ => none

/-- the options of a configuration: lines that are prepended, or an object -/
def decode : Config.Decode InsertionOptions :=
  Config.required "a string, a list of strings or \x7b content, placement \x7d" fun
    | .obj members => ofMembers? members
    | value => (contentLines? value).map (⟨·, .prepend⟩)

end InsertionOptions

namespace Insertion

/-- the name of the plugin -/
def pluginName : String := "add"

/-- refuses other configurations -/
def check (input : PluginView) : Except Error Unit := do
  let _ ← Config.read pluginName InsertionOptions.decode input.config

/-- the lines at their place -/
def output (input : PluginView) : Except Error Contribution := do
  let config ← Config.read pluginName InsertionOptions.decode input.config
  pure <| match config.placement with
    | .prepend => { prepend := config.content }
    | .content => { content := String.intercalate "\n" config.content }
    | .append => { append := config.content }

end Insertion

/-- inserts configured text -/
def Plugin.insertion : Plugin where
  name := Insertion.pluginName
  check := Insertion.check
  generate := pureHook Insertion.output

end GraphGen

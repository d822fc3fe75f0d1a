/-
The time of generation as a comment.

- `StampOptions`: the format of the time and the text before it.
- `Plugin.stamp`: the plugin that writes the comment, given the time.
-/
import GraphGen.Config.Decode
import GraphGen.Plugin.Basic
import GraphGen.Time.Format

namespace GraphGen

/-- how the time of generation is told -/
structure StampOptions where
  format : String
  message : String
  deriving DecidableEq, Inhabited

namespace StampOptions

/-- date, time and offset after a few words -/
def standard : StampOptions := ⟨"%Y-%m-%dT%H:%M:%S%:z", "Generated on "⟩

/-- the options of a configuration, whose format is not looked into: a format alone or an object -/
def ofValue : Config.Decode StampOptions
  | .null => .ok standard
  | .str format => .ok { standard with format }
  | value => do
    let members ← Config.members value
    let format ← Config.field members "format" Config.optionalText none
    let message ← Config.field members "message" Config.optionalText none
    pure ⟨format.getD standard.format, message.getD standard.message⟩

/-- the options of a configuration and the pieces of the format, which must be known -/
def decodeFormat (value : Json) : Except String (StampOptions × TimeFormat) := do
  let config ← ofValue value
  match TimeFormat.parse? config.format with
  | some format => pure (config, format)
  | none => .error ("invalid time format `" ++ config.format ++ "`")

/-- the options of a configuration, with a known format -/
def decode : Config.Decode StampOptions := fun value => (decodeFormat value).map Prod.fst

end StampOptions

namespace Stamp

/-- the name of the plugin -/
def pluginName : String := "time"

/-- refuses other configurations -/
def check (input : PluginView) : Except Error Unit := do
  let _ ← Config.read pluginName StampOptions.decode input.config

/-- the sign that opens a comment in a file -/
def commentSign (file : String) : String :=
  if [".graphql", ".gql", ".graphqls"].any fun extension => Text.endsWith extension file then "#" else "//"

/-- the comment -/
def output (now : Instant) (input : PluginView) : Except Error Contribution := do
  let (config, format) ← Config.read pluginName StampOptions.decodeFormat input.config
  match format.render? now with
  | some time => pure { content := commentSign input.filePath ++ " " ++ config.message ++ time }
  | none => .error (.custom "an error occurred when formatting an argument")

end Stamp

/-- writes the time of generation -/
def Plugin.stamp (now : Instant) : Plugin where
  name := Stamp.pluginName
  check := Stamp.check
  generate := pureHook (Stamp.output now)

end GraphGen

/-
Errors of loading inputs, resolving selections and running plugins.

- `SchemaFault`: why a parsed schema document makes no schema.
- `Error`: the causes; an error of a plugin holds the error that it wraps.
- `Error.message`, `Error.code`, `Error.help`: the wording of each cause.
-/
namespace GraphGen

/-- why a parsed schema document makes no schema -/
inductive SchemaFault where
  | duplicateType (name : String)
  | extensionKind (name : String)
  | notAnInterface (type interface : String)
  | notAnObject (union member : String)
  | other (message : String)
  deriving DecidableEq, Inhabited

/-- the wording of a schema fault -/
def SchemaFault.message : SchemaFault → String
  | duplicateType name => s!"type `{name}` is defined more than once"
  | extensionKind name => s!"extension of `{name}` does not match its kind"
  | notAnInterface type interface => s!"`{type}` implements `{interface}`, which is not an interface"
  | notAnObject union member => s!"union `{union}` has member `{member}`, which is not an object type"
  | other message => message

/-- what went wrong -/
inductive Error where
  | schemaParse (message : String)
  | invalidSchema (fault : SchemaFault)
  | documentParse (location message : String)
  | unknownType (name : String)
  | unknownField (type field : String)
  | unknownFragment (name : String)
  | duplicateFragment (name : String)
  | cyclicFragment (path : List String)
  | invalidPlugin (name : String) (known : String)
  | outputExtension (plugin path expected : String)
  | malformedConfig (plugin message : String)
  | pluginValidation (plugin : String) (cause : Error)
  | pluginGeneration (plugin : String) (cause : Error)
  | custom (message : String)
  deriving DecidableEq, Inhabited

namespace Error

/-- the wording of an error, without that of the error it wraps -/
def message : Error → String
  | schemaParse message => s!"failed to parse schema: {message}"
  | invalidSchema fault => s!"invalid schema: {fault.message}"
  | documentParse location message => s!"failed to parse document `{location}`: {message}"
  | unknownType name => s!"unknown type `{name}`"
  | unknownField type field => s!"type `{type}` has no field `{field}`"
  | unknownFragment name => s!"unknown fragment `{name}`"
  | duplicateFragment name => s!"fragment `{name}` is defined more than once"
  | cyclicFragment path => "cyclic fragment reference: " ++ String.intercalate " -> " path
  | invalidPlugin name known => s!"plugin `{name}` is not registered (known plugins: {known})"
  | outputExtension plugin path expected =>
    s!"plugin `{plugin}` cannot write `{path}`: expected an output file ending with {expected}"
  | malformedConfig plugin message => s!"invalid configuration for `{plugin}`: {message}"
  | pluginValidation plugin _ => s!"plugin `{plugin}` rejected the output target"
  | pluginGeneration plugin _ => s!"plugin `{plugin}` failed to generate output"
  | custom message => message

/-- the code under which an error is reported -/
def code : Error → String
  | schemaParse _ => "qlgen::schema_parse"
  | invalidSchema _ => "qlgen::invalid_schema"
  | documentParse _ _ => "qlgen::document_parse"
  | unknownType _ => "qlgen::unknown_type"
  | unknownField _ _ => "qlgen::unknown_field"
  | unknownFragment _ => "qlgen::unknown_fragment"
  | duplicateFragment _ => "qlgen::duplicate_fragment"
  | cyclicFragment _ => "qlgen::cyclic_fragment"
  | invalidPlugin _ _ => "qlgen::invalid_plugin"
  | outputExtension _ _ _ => "qlgen::output_extension"
  | malformedConfig _ _ => "qlgen::malformed_config"
  | pluginValidation _ _ => "qlgen::plugin_validation"
  | pluginGeneration _ _ => "qlgen::plugin_generation"
  | custom _ => "qlgen::custom"

/-- advice on how to avoid an error -/
def help : Error → Option String
  | unknownFragment _ => some "make sure the document defining the fragment is part of `documents`"
  | cyclicFragment _ => some "a fragment may not spread itself, directly or through other fragments"
  | invalidPlugin _ _ =>
    some ("a plugin must implement `qlgen_plugins::Plugin` and be registered before use, for example:\n\n"
      ++ "    let mut registry = PluginRegistry::with_builtins();\n    registry.register(Arc::new(MyPlugin));")
  | _ => none

/-- the error that a plugin error wraps -/
def cause : Error → Option Error
  | pluginValidation _ cause => some cause
  | pluginGeneration _ cause => some cause
  | _ => none

end Error

end GraphGen

/-
The schema as the result of an introspection query.

- `answer`: the result, with or without descriptions. The types of the introspection system itself are left out;
  directives that every schema knows come before the declared ones unless they are declared again.
- `typeChain`: a type reference as a chain of wrappers around a named type.
- `IntrospectionOptions`, `Plugin.introspection`: the plugin that writes the result as JSON.
-/
import GraphGen.Config.Decode
import GraphGen.Json.Printer
import GraphGen.Plugin.Basic

namespace GraphGen

namespace Introspection

/-- a description, when descriptions are asked for -/
def describe (descriptions : Bool) (text : Option String) : Json :=
  if descriptions then .optional text else .null

/-! ## Type references -/

/-- a named type of a kind -/
def namedRef (kind : TypeKind) (name : String) : Json :=
  .obj [("kind", .str kind.name), ("name", .str name), ("ofType", .null)]

/-- a wrapper around a type -/
def wrapperRef (kind : String) (inner : Json) : Json :=
  .obj [("kind", .str kind), ("name", .null), ("ofType", inner)]

/-- a type, in a wrapper when it is required -/
def markRequired (required : Bool) (type : Json) : Json :=
  if required then wrapperRef "NON_NULL" type else type

/-- the wrappers of a type reference around its named type -/
def wrapRef (wrapping : Wrapping) (named : Json) : Json :=
  wrapping.lists.foldl (fun type required => markRequired required (wrapperRef "LIST" type))
    (markRequired wrapping.innerRequired named)

/-- a type reference as a chain of wrappers, outermost first; an unknown type counts as a scalar -/
def typeChain (schema : Schema) (type : WrappedType) : Json :=
  wrapRef type.wrapping (namedRef ((schema.kind? type.name).getD .scalar) type.name)

/-! ## Types -/

/-- the members that tell of a deprecation -/
def deprecationMembers (deprecation : Option Deprecation) : List (String × Json) :=
  [("isDeprecated", .bool deprecation.isSome), ("deprecationReason", .optional (deprecation.map Deprecation.text))]

/-- an argument or an input field -/
def inputValueNode (schema : Schema) (descriptions : Bool) (value : InputValue) : Json :=
  .obj [("name", .str value.name), ("description", describe descriptions value.description),
    ("type", typeChain schema value.type), ("defaultValue", .optional value.default)]

/-- arguments or input fields -/
def inputValueNodes (schema : Schema) (descriptions : Bool) (values : List InputValue) : Json :=
  .arr (values.map (inputValueNode schema descriptions))

/-- a field of an object or interface -/
def fieldNode (schema : Schema) (descriptions : Bool) (field : Field) : Json :=
  .obj ([("name", .str field.name), ("description", describe descriptions field.description),
    ("args", inputValueNodes schema descriptions field.arguments), ("type", typeChain schema field.type)]
    ++ deprecationMembers field.deprecation)

/-- a value of an enum -/
def enumValueNode (descriptions : Bool) (value : EnumValue) : Json :=
  .obj ([("name", .str value.name), ("description", describe descriptions value.description)]
    ++ deprecationMembers value.deprecation)

/-- an array of some items, or `null` where the kind of a type has no such items -/
def itemsWhen (present : Bool) (items : List Json) : Json :=
  if present then .arr items else .null

/-- a type -/
def typeObject (schema : Schema) (descriptions : Bool) (type : NamedType) : Json :=
  let hasFields := type.kind = .object || type.kind = .interface
  .obj [("kind", .str type.kind.name), ("name", .str type.name),
    ("description", describe descriptions type.description),
    ("fields", itemsWhen hasFields (type.fields.values.map (fieldNode schema descriptions))),
    ("inputFields", itemsWhen (type.kind = .inputObject)
      (type.inputFields.values.map (inputValueNode schema descriptions))),
    ("interfaces", itemsWhen hasFields (type.interfaces.map (namedRef .interface))),
    ("enumValues", itemsWhen (type.kind = .enum) (type.enumValues.map (enumValueNode descriptions))),
    ("possibleTypes", itemsWhen type.kind.isAbstract ((schema.possibleTypes type.name).map (namedRef .object)))]

/-! ## Directives -/

/-- a directive that every schema knows; it has one argument -/
structure StandardDirective where
  name : String
  description : String
  locations : List DirectiveLocation
  argument : String
  argumentDescription : String
  argumentType : WrappedType
  argumentDefault : Option String

/-- the directives that every schema knows -/
def standardDirectives : List StandardDirective :=
  [{ name := "include"
     description := "Directs the executor to include this field or fragment only when the `if` argument is true."
     locations := [.field, .fragmentSpread, .inlineFragment]
     argument := "if"
     argumentDescription := "Included when true."
     argumentType := ⟨"Boolean", .required⟩
     argumentDefault := none },
   { name := "skip"
     description := "Directs the executor to skip this field or fragment when the `if` argument is true."
     locations := [.field, .fragmentSpread, .inlineFragment]
     argument := "if"
     argumentDescription := "Skipped when true."
     argumentType := ⟨"Boolean", .required⟩
     argumentDefault := none },
   { name := "deprecated"
     description := "Marks an element of a GraphQL schema as no longer supported."
     locations := [.fieldDefinition, .argumentDefinition, .inputFieldDefinition, .enumValue]
     argument := "reason"
     argumentDescription := "Explains why this element was deprecated."
     argumentType := ⟨"String", .nullable⟩
     argumentDefault := some "\"No longer supported\"" }]

/-- a directive with its locations and arguments -/
def directiveNode (name : String) (description : Json) (locations : List DirectiveLocation) (arguments : Json) : Json :=
  .obj [("name", .str name), ("description", description), ("locations", .strings (locations.map (·.name))),
    ("args", arguments)]

/-- a directive that every schema knows -/
def standardDirectiveNode (descriptions : Bool) (d : StandardDirective) : Json :=
  let type := wrapRef d.argumentType.wrapping (namedRef .scalar d.argumentType.name)
  directiveNode d.name (describe descriptions (some d.description)) d.locations <|
    .arr [.obj [("name", .str d.argument), ("description", describe descriptions (some d.argumentDescription)),
      ("type", type), ("defaultValue", .optional d.argumentDefault)]]

/-- a declared directive -/
def declaredDirectiveNode (schema : Schema) (descriptions : Bool) (d : DeclaredDirective) : Json :=
  directiveNode d.name (describe descriptions d.description) d.locations
    (inputValueNodes schema descriptions d.arguments)

/-! ## The result -/

/-- a root type -/
def rootNode (schema : Schema) (kind : OperationKind) : Json :=
  match schema.rootName? kind with
  | some name => .obj [("name", .str name)]
  | none => .null

/-- the types that are listed -/
def listedTypes (schema : Schema) : List NamedType :=
  schema.types.values.filter (!·.isMeta)

/-- the directives that every schema knows and this one does not declare -/
def undeclared (schema : Schema) : List StandardDirective :=
  standardDirectives.filter fun d => !schema.directives.contains d.name

/-- the result of an introspection query -/
def answer (schema : Schema) (descriptions : Bool) : Json :=
  let directives := (undeclared schema).map (standardDirectiveNode descriptions)
    ++ schema.directives.values.map (declaredDirectiveNode schema descriptions)
  .obj [("__schema", .obj [("queryType", rootNode schema .query), ("mutationType", rootNode schema .mutation),
    ("subscriptionType", rootNode schema .subscription),
    ("types", .arr ((listedTypes schema).map (typeObject schema descriptions))), ("directives", .arr directives)])]

end Introspection

/-! ## The plugin -/

/-- the options of the plugin -/
structure IntrospectionOptions where
  /-- whether the result is written without white space -/
  minify : Bool
  descriptions : Bool
  deriving DecidableEq, Inhabited

namespace IntrospectionOptions

/-- the options of a configuration -/
def decode : Config.Decode IntrospectionOptions := fun config => do
  let members ← Config.membersInOrder ["minify", "descriptions"] config
  pure ⟨← Config.field members "minify" Config.truth false, ← Config.field members "descriptions" Config.truth true⟩

end IntrospectionOptions

namespace Introspection

/-- the name of the plugin -/
def pluginName : String := "introspection"

/-- refuses other files than JSON files -/
def check (input : PluginView) : Except Error Unit := do
  requireEnding pluginName input.filePath [".json"]
  let _ ← Config.read pluginName IntrospectionOptions.decode input.config

/-- the result as JSON text -/
def output (input : PluginView) : Except Error Contribution := do
  let config ← Config.read pluginName IntrospectionOptions.decode input.config
  let result := answer input.schema config.descriptions
  pure { content := if config.minify then result.compress else result.pretty }

end Introspection

/-- writes the result of an introspection query -/
def Plugin.introspection : Plugin where
  name := Introspection.pluginName
  check := Introspection.check
  generate := pureHook Introspection.output

end GraphGen

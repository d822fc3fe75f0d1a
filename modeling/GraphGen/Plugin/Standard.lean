/-
The plugins that are there without being registered.

- `Catalog.standard`: all of them, given the time of generation.
-/
import GraphGen.Plugin.Catalog
import GraphGen.Targets.CSharpClasses
import GraphGen.Targets.DocumentConstants
import GraphGen.Targets.Insertion
import GraphGen.Targets.Introspection
import GraphGen.Targets.JavaClasses
import GraphGen.Targets.KotlinClasses
import GraphGen.Targets.OperationTypes
import GraphGen.Targets.PossibleTypes
import GraphGen.Targets.SchemaText
import GraphGen.Targets.Stamp

namespace GraphGen

namespace Catalog

/-- the plugins in the order of their registration -/
def standardPlugins (now : Instant) : List Plugin :=
  [.typeScriptTypes, .typeScriptOperations, .documentConstants, .flowTypes, .flowOperations, .javaClasses,
    .cSharpClasses, .kotlinClasses, .introspection, .schemaText, .possibleTypes, .stamp now, .insertion]

/-- the catalog of the plugins -/
def standard (now : Instant) : Catalog :=
  ofList (standardPlugins now)

end Catalog

end GraphGen

/-
The plugins that an output target can name.

- `Catalog`: plugins under their names, in the order of their registration.
- `add`: a plugin takes the place of one of the same name.
- `require`: the plugin of a name, which must be registered.
-/
import GraphGen.Plugin.Basic
import GraphGen.Text.Quoted

namespace GraphGen

/-- plugins under their names, in the order of their registration -/
structure Catalog where
  plugins : Table Plugin
  deriving Inhabited

namespace Catalog

/-- the catalog without plugins -/
def empty : Catalog := ⟨.empty⟩

/-- registers a plugin, in place of one of the same name -/
def add (catalog : Catalog) (plugin : Plugin) : Catalog :=
  ⟨catalog.plugins.insert plugin.name plugin⟩

/-- the catalog of some plugins -/
def ofList (plugins : List Plugin) : Catalog :=
  plugins.foldl add empty

/-- the registered names in order -/
def names (catalog : Catalog) : List String :=
  catalog.plugins.keys

/-- whether a plugin of that name is registered -/
def contains (catalog : Catalog) (name : String) : Bool :=
  catalog.plugins.contains name

/-- the plugin of a name, which must be registered -/
def require (catalog : Catalog) (name : String) : Except Error Plugin :=
  match catalog.plugins.get? name with
  | some plugin => .ok plugin
  | none => .error (.invalidPlugin name (String.intercalate ", " catalog.names))

/-- the number of registered plugins -/
def size (catalog : Catalog) : Nat :=
  catalog.plugins.size

/-- whether no plugin is registered -/
def isEmpty (catalog : Catalog) : Bool :=
  catalog.plugins.isEmpty

/-- the names, each quoted, between brackets -/
def render (catalog : Catalog) : String :=
  "[" ++ String.intercalate ", " (catalog.names.map Text.quoted) ++ "]"

end Catalog

end GraphGen

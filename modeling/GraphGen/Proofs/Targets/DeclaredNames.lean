/-
Names that schema plugins declare.

The names come from three sources: fixed ones, those of schema types, and those of the types of arguments, which are made of a
type, a field in upper case and an ending. Nothing keeps the sources apart.
- `Origins`: what the names of an output are made of, and `Origins.names`, these names.
- `Origins.Apart`: the sources do not meet, and no two fields have one type of arguments.
- `Origins.nodup_names_iff`: then no name is declared twice, and otherwise one is, when within each source all is distinct.
- `typeDeclarations_names`, `declarations_perm`: declarations have the names of their origins, in another order, when each type is
  declared under its own name and the arguments of its fields behind it. `typeItems_names` says the same of classes.

Main results:
- `declared_once_iff`: the outputs of the four plugins declare every name once exactly when their origins are apart.
- `declared_twice`: an input object with the name of the arguments of a field.
-/
import Mathlib.Data.List.Nodup
import Mathlib.Data.List.Perm.Basic
import GraphGen.Proofs.Targets.Picks
import GraphGen.Targets.FlowTypes
import GraphGen.Targets.JavaClasses
import GraphGen.Targets.KotlinClasses

namespace GraphGen

/-! ## Where names come from -/

/-- what the names of an output are made of -/
structure Origins where
  /-- what names are made with -/
  affixes : NameAffixes
  /-- names that every output has -/
  fixed : List String
  /-- the schema types that are declared -/
  types : List String
  /-- the fields whose arguments are declared, after their types -/
  arguments : List (String × String)

namespace Origins

/-- the schema name of the type of arguments of a field of a type -/
def argumentsType (field : String × String) : String :=
  SchemaScope.argumentsTypeName field.1 field.2

/-- the names that are declared -/
def names (origins : Origins) : List String :=
  origins.fixed ++ (origins.types.map origins.affixes.apply
    ++ origins.arguments.map fun field => origins.affixes.apply (argumentsType field))

/-- the sources of names do not meet, and fields have types of arguments of their own -/
structure Apart (origins : Origins) : Prop where
  /-- no schema type gets a fixed name -/
  types : ∀ type ∈ origins.types, origins.affixes.apply type ∉ origins.fixed
  /-- no type of arguments gets a fixed name -/
  arguments : ∀ field ∈ origins.arguments, origins.affixes.apply (argumentsType field) ∉ origins.fixed
  /-- no type of arguments gets the name of a schema type -/
  argumentsTypes : ∀ field ∈ origins.arguments, argumentsType field ∉ origins.types
  /-- fields with one name for the type of their arguments are one field -/
  fields : ∀ field ∈ origins.arguments, ∀ other ∈ origins.arguments, argumentsType field = argumentsType other → field = other

/-- within each source all is distinct -/
structure Distinct (origins : Origins) : Prop where
  fixed : origins.fixed.Nodup
  types : origins.types.Nodup
  arguments : origins.arguments.Nodup

end Origins

theorem NameAffixes.apply_inj {names : NameAffixes} {name other : String} :
    names.apply name = names.apply other ↔ name = other := by
  simp [apply, String.append_assoc, String.append_right_inj, String.append_left_inj]

/-- **Names are distinct exactly when their sources are apart.** -/
theorem Origins.nodup_names_iff {origins : Origins} (h : origins.Distinct) : origins.names.Nodup ↔ origins.Apart := by
  have hinjective : Function.Injective origins.affixes.apply := fun _ _ => NameAffixes.apply_inj.1
  rw [names, List.nodup_append, List.nodup_append, List.nodup_map_iff_inj_on h.arguments]
  constructor
  · rintro ⟨-, ⟨-, hfields, hargumentsTypes⟩, hfixed⟩
    refine ⟨fun type ht hmem => ?_, fun field hf hmem => ?_, fun field hf hmem => ?_, fun field hf other ho he => ?_⟩
    · exact hfixed _ hmem _ (List.mem_append_left _ (List.mem_map_of_mem ht)) rfl
    · exact hfixed _ hmem _ (List.mem_append_right _ (List.mem_map_of_mem hf)) rfl
    · exact hargumentsTypes _ (List.mem_map_of_mem hmem) _ (List.mem_map_of_mem hf) rfl
    · exact hfields field hf other ho (congrArg _ he)
  · intro hapart
    refine ⟨h.fixed, ⟨h.types.map hinjective, fun field hf other ho he => ?_, ?_⟩, ?_⟩
    · exact hapart.fields field hf other ho (hinjective he)
    · intro _ htype _ hfield he
      obtain ⟨type, ht, rfl⟩ := List.mem_map.1 htype
      obtain ⟨field, hf, rfl⟩ := List.mem_map.1 hfield
      exact hapart.argumentsTypes field hf (hinjective he ▸ ht)
    · intro name hname _ hother he
      subst he
      rcases List.mem_append.1 hother with htype | hfield
      · obtain ⟨type, ht, rfl⟩ := List.mem_map.1 htype
        exact hapart.types type ht hname
      · obtain ⟨field, hf, rfl⟩ := List.mem_map.1 hfield
        exact hapart.arguments field hf hname

/-! ## The names of a schema -/

/-- values that stand under their own names have distinct names -/
theorem nodup_of_named {α : Type} {t : Table α} {name : α → String}
    (h : ∀ key value, t.get? key = some value → name value = key) : (t.values.map name).Nodup := by
  have hkeys : t.values.map name = t.keys := by
    rw [Table.values, Table.keys, entryKeys, List.map_map]
    exact List.map_congr_left fun entry he => h _ _ (Table.get?_eq_some_iff.2 he)
  rw [hkeys]
  exact t.nodup_keys

namespace Schema

variable {document : SchemaDocument} {schema : Schema}

/-- the names of the own types that are declared -/
def declaredTypes (schema : Schema) (declares : NamedType → Bool) : List String :=
  (schema.ownTypes.filter declares).map (·.name)

/-- the fields with arguments of a type, after its name -/
def argumentFieldsOf (fields : NamedType → List Field) (type : NamedType) : List (String × String) :=
  ((fields type).filter (!·.arguments.isEmpty)).map fun field => (type.name, field.name)

/-- the fields with arguments of all own types -/
def argumentFields (schema : Schema) (fields : NamedType → List Field) : List (String × String) :=
  schema.ownTypes.flatMap (argumentFieldsOf fields)

theorem nodup_names (hs : ofDocument document = .ok schema) : (schema.types.values.map (·.name)).Nodup :=
  nodup_of_named fun _ _ => name_eq hs

theorem nodup_ownTypes (hs : ofDocument document = .ok schema) : (schema.ownTypes.map (·.name)).Nodup :=
  (nodup_names hs).sublist (List.filter_sublist.map _)

theorem nodup_declaredTypes (hs : ofDocument document = .ok schema) (declares : NamedType → Bool) :
    (schema.declaredTypes declares).Nodup :=
  (nodup_ownTypes hs).sublist (List.filter_sublist.map _)

theorem nodup_fieldNames (hs : ofDocument document = .ok schema) {type : NamedType} (hm : type ∈ schema.types.values) :
    (type.fields.values.map (·.name)).Nodup := by
  obtain ⟨types, htypes, -, rfl⟩ := ofDocument_eq_ok_iff.1 hs
  obtain ⟨⟨key, _⟩, he, rfl⟩ := List.mem_map.1 hm
  exact nodup_of_named (fieldsNamed_typesOf htypes (Table.get?_eq_some_iff.2 he))

/-- fields with arguments are told apart by their types and their names -/
theorem nodup_argumentFields (hs : ofDocument document = .ok schema) {fields : NamedType → List Field}
    (hsub : ∀ type, (fields type).Sublist type.fields.values) : (schema.argumentFields fields).Nodup := by
  refine List.nodup_flatMap.2 ⟨fun type ht => ?_, ?_⟩
  · have hnames := nodup_fieldNames hs (List.filter_subset_self _ ht)
    have hfields : ((fields type).filter (!·.arguments.isEmpty)).Sublist type.fields.values :=
      List.filter_sublist.trans (hsub type)
    refine List.Nodup.of_map Prod.snd ?_
    rw [argumentFieldsOf, List.map_map]
    exact hnames.sublist (hfields.map _)
  · refine (List.pairwise_map.1 (nodup_ownTypes hs)).imp fun hne => ?_
    rintro field hf hf'
    obtain ⟨_, -, rfl⟩ := List.mem_map.1 hf
    obtain ⟨_, -, he⟩ := List.mem_map.1 hf'
    exact hne (congrArg Prod.fst he).symm

end Schema

/-! ## The names of an output -/

/-- what a schema plugin declares, by the types it declares and the fields it knows -/
def schemaOrigins (affixes : NameAffixes) (fixed : List String) (declares : NamedType → Bool)
    (fields : NamedType → List Field) (schema : Schema) : Origins :=
  ⟨affixes, fixed, schema.declaredTypes declares, schema.argumentFields fields⟩

/-- the names that a schema type stands for: its own, and those of the arguments of its fields -/
def typeNames (affixes : NameAffixes) (declares : NamedType → Bool) (fields : NamedType → List Field) (type : NamedType) :
    List String :=
  (if declares type then [affixes.apply type.name] else [])
    ++ (Schema.argumentFieldsOf fields type).map fun field => affixes.apply (Origins.argumentsType field)

section Outputs

variable {document : SchemaDocument} {schema : Schema} {affixes : NameAffixes} {fixed : List String}
  {declares : NamedType → Bool} {fields : NamedType → List Field}

theorem distinct_schemaOrigins (hs : Schema.ofDocument document = .ok schema) (hf : fixed.Nodup)
    (hsub : ∀ type, (fields type).Sublist type.fields.values) :
    (schemaOrigins affixes fixed declares fields schema).Distinct :=
  ⟨hf, Schema.nodup_declaredTypes hs declares, Schema.nodup_argumentFields hs hsub⟩

/-- type after type, the names are those of the origins -/
theorem names_perm (affixes : NameAffixes) (fixed : List String) (declares : NamedType → Bool)
    (fields : NamedType → List Field) (schema : Schema) {written : NamedType → List String}
    (hw : ∀ type, (written type).Perm (typeNames affixes declares fields type)) :
    (fixed ++ schema.ownTypes.flatMap written).Perm (schemaOrigins affixes fixed declares fields schema).names := by
  have htypes : (schema.ownTypes.flatMap fun type => if declares type then [affixes.apply type.name] else [])
      = (schema.declaredTypes declares).map affixes.apply := by
    rw [Schema.declaredTypes, List.map_map]
    induction schema.ownTypes with
    | nil => rfl
    | cons type rest ih => by_cases hd : declares type <;> simp [hd, ih]
  have hfields : (schema.ownTypes.flatMap fun type =>
        (Schema.argumentFieldsOf fields type).map fun field => affixes.apply (Origins.argumentsType field))
      = (schema.argumentFields fields).map fun field => affixes.apply (Origins.argumentsType field) := by
    rw [Schema.argumentFields, List.map_flatMap]
  have hsplit := List.flatMap_append_perm schema.ownTypes
    (fun type => if declares type then [affixes.apply type.name] else [])
    fun type => (Schema.argumentFieldsOf fields type).map fun field => affixes.apply (Origins.argumentsType field)
  rw [htypes, hfields] at hsplit
  exact ((List.Perm.flatMap_left _ fun type _ => hw type).trans hsplit.symm).append_left fixed

end Outputs

/-! ## The plugins -/

/-- only the fields of objects and interfaces have arguments that are declared -/
theorem argumentFieldsOf_eq_nil {fields : NamedType → List Field} {type : NamedType}
    (hsub : (fields type).Sublist type.fields.values) (ho : type.kind ≠ .object) (hi : type.kind ≠ .interface) :
    Schema.argumentFieldsOf fields type = [] := by
  have hnone : fields type = [] := by
    refine List.eq_nil_iff_forall_not_mem.2 fun field hf => ?_
    rcases TypeScriptTypes.kind_of_mem_fields (hsub.subset hf) with hk | hk
    · exact ho hk
    · exact hi hk
  rw [Schema.argumentFieldsOf, hnone]
  rfl

/-- what is declared for the arguments of fields has the names of these -/
theorem argumentNames_eq {Declared : Type} {name : Declared → String} {declare : Field → Declared} {affixes : NameAffixes}
    (fields : NamedType → List Field) (type : NamedType)
    (h : ∀ field : Field, name (declare field) = affixes.apply (Origins.argumentsType (type.name, field.name))) :
    (((fields type).filter (!·.arguments.isEmpty)).map declare).map name
      = (Schema.argumentFieldsOf fields type).map fun field => affixes.apply (Origins.argumentsType field) := by
  rw [Schema.argumentFieldsOf, List.map_map, List.map_map]
  exact List.map_congr_left fun field _ => h field

/-- A type that is declared under its own name, with the arguments of its fields behind it, stands for these names. Only a scalar is
not declared. -/
theorem typeDeclarations_names {affixes : NameAffixes} {fields : NamedType → List Field} {type : NamedType}
    {declared : List Declaration} (body : Field → DeclarationBody) (hsub : (fields type).Sublist type.fields.values)
    (hscalar : type.kind = .scalar → declared = [])
    (hown : type.kind ≠ .scalar → ∃ own : Declaration, own.name = affixes.apply type.name ∧
      declared = own :: if type.kind = .object ∨ type.kind = .interface then
        ((fields type).filter (!·.arguments.isEmpty)).map fun field =>
          { name := SchemaScope.argumentsName affixes type.name field.name, body := body field }
      else []) :
    declared.map (·.name) = typeNames affixes (·.kind ≠ .scalar) fields type := by
  rw [typeNames]
  by_cases hk : type.kind = .scalar
  · rw [hscalar hk, argumentFieldsOf_eq_nil hsub (by rw [hk]; nofun) (by rw [hk]; nofun)]
    simp [hk]
  · obtain ⟨own, hname, hdeclared⟩ := hown hk
    rw [hdeclared, List.map_cons, hname, if_pos (decide_eq_true hk), List.singleton_append]
    split
    · exact congrArg (List.cons _) (argumentNames_eq fields type fun _ => rfl)
    · rename_i hfields
      rw [argumentFieldsOf_eq_nil hsub (fun ho => hfields (Or.inl ho)) fun hi => hfields (Or.inr hi)]
      rfl

/-- declarations, some of them fixed, have the names of their origins -/
theorem declarations_perm {affixes : NameAffixes} {fields : NamedType → List Field} {declared : NamedType → List Declaration}
    (fixed : List Declaration)
    (h : ∀ type, (declared type).map (·.name) = typeNames affixes (·.kind ≠ .scalar) fields type) (schema : Schema) :
    ((fixed ++ schema.ownTypes.flatMap declared).map (·.name)).Perm
      (schemaOrigins affixes (fixed.map (·.name)) (·.kind ≠ .scalar) fields schema).names := by
  rw [List.map_append, List.map_flatMap]
  exact names_perm affixes _ _ _ schema fun type => .of_eq (h type)

/-- all fields of a type -/
def allFields (type : NamedType) : List Field :=
  type.fields.values

namespace TypeScriptTypes

/-- the origins of the declared names -/
def origins (schema : Schema) (config : TypeScriptOptions) : Origins :=
  schemaOrigins config.common.names ["Maybe", "Scalars"] (·.kind ≠ .scalar) (ownFields config) schema

theorem ownFields_sublist (config : TypeScriptOptions) (type : NamedType) :
    (ownFields config type).Sublist type.fields.values :=
  List.filter_sublist

theorem declarations_origins (schema : Schema) (config : TypeScriptOptions) :
    ((declarations schema config).map (·.name)).Perm (origins schema config).names := by
  refine declarations_perm [_, _] (fun type => ?_) schema
  refine typeDeclarations_names (fun field => .object [] (inputProperties (scope schema config) field.arguments))
    (ownFields_sublist config type) (fun hk => ?_) fun hk => ?_
  · rw [typeDeclarations, hk]
  · unfold typeDeclarations
    cases hkind : type.kind with
    | scalar => exact absurd hkind hk
    | _ => exact ⟨_, rfl, rfl⟩

end TypeScriptTypes

namespace FlowTypes

/-- the origins of the declared names -/
def origins (schema : Schema) (config : FlowOptions) : Origins :=
  schemaOrigins config.common.names ["Scalars"] (·.kind ≠ .scalar) allFields schema

theorem declarations_origins (schema : Schema) (config : FlowOptions) :
    ((declarations schema config).map (·.name)).Perm (origins schema config).names := by
  refine declarations_perm [_] (fun type => ?_) schema
  refine typeDeclarations_names (fun field => .object [] (inputProperties (scope schema config) field.arguments))
    (.refl _) (fun hk => ?_) fun hk => ?_
  · rw [typeDeclarations, hk]
  · unfold typeDeclarations
    cases hkind : type.kind with
    | scalar => exact absurd hkind hk
    | _ => exact ⟨_, rfl, rfl⟩

end FlowTypes

/-! ## Classes -/

/-- whether a type has a class of its own: an enum, an input object and, when asked for, an object -/
def declaresClass (withObjects : Bool) (type : NamedType) : Bool :=
  type.kind = .enum || type.kind = .inputObject || (withObjects && type.kind = .object)

/-- the origins of the names of classes -/
def classOrigins (withObjects : Bool) (schema : Schema) : Origins :=
  schemaOrigins .plain [] (declaresClass withObjects) allFields schema

theorem apply_plain (name : String) : NameAffixes.plain.apply name = name := by
  simp [NameAffixes.apply, NameAffixes.plain]

/-- the class of an object stands behind those of its arguments -/
theorem typeItems_names (withObjects : Bool) (type : NamedType) :
    ((typeItems withObjects type).map (·.name)).Perm (typeNames .plain (declaresClass withObjects) allFields type) := by
  have hnone := @argumentFieldsOf_eq_nil allFields type (.refl _)
  have harguments : ((type.fields.values.filter (!·.arguments.isEmpty)).map fun field =>
        ClassItem.input (.ofArguments type.name field)).map (·.name)
      = (Schema.argumentFieldsOf allFields type).map fun field =>
        NameAffixes.plain.apply (Origins.argumentsType field) :=
    argumentNames_eq allFields type fun _ => rfl
  unfold typeItems typeNames declaresClass
  cases hk : type.kind with
  | object =>
    dsimp only
    rw [List.map_append, harguments]
    refine List.perm_append_comm.trans (.of_eq ?_)
    cases withObjects <;> simp [apply_plain, ClassItem.name]
  | interface =>
    dsimp only
    rw [harguments]
    simp
  | scalar => simp [hk, hnone]
  | union => simp [hk, hnone]
  | enum => simp [hk, hnone, apply_plain, ClassItem.name]
  | inputObject => simp [hk, hnone, apply_plain, ClassItem.name]

theorem classItems_perm (withObjects : Bool) (schema : Schema) :
    ((classItems withObjects schema).map (·.name)).Perm (classOrigins withObjects schema).names := by
  rw [classItems, List.map_flatMap]
  exact names_perm .plain [] _ _ schema fun type => typeItems_names withObjects type

/-! ## What the plugins write -/

section Generate

variable {input : PluginView} {ctx after : SharedValues} {out : Contribution}

theorem FlowTypes.types_of_generate (h : Plugin.flowTypes.generate input ctx = (.ok out, after)) :
    ∃ config, FlowOptions.decode input.config = .ok config ∧
      out.content = String.intercalate "\n\n" ((declarations input.schema config).map (write config)) := by
  change output input ctx = _ at h
  unfold output at h
  split at h
  · cases h
  · rename_i config hread
    cases h
    exact ⟨config, Config.read_eq_ok_iff.1 hread, rfl⟩

theorem KotlinClasses.classes_of_generate (h : Plugin.kotlinClasses.generate input ctx = (.ok out, after)) :
    ∃ config, KotlinOptions.decode input.config = .ok config ∧
      out.content = write ⟨input.schema, ScalarTargets.kotlin.overriddenBy config.scalars⟩
        (classItems config.withTypes input.schema) := by
  obtain ⟨config, hread, h⟩ := bind_eq_ok_iff.1 (congrArg Prod.fst h)
  cases h
  exact ⟨config, Config.read_eq_ok_iff.1 hread, rfl⟩

theorem JavaClasses.classes_of_generate (h : Plugin.javaClasses.generate input ctx = (.ok out, after)) :
    ∃ config, JavaOptions.decode input.config = .ok config ∧
      out.content = holder ⟨input.schema, ScalarTargets.java.overriddenBy config.scalars⟩ config.className
        (classItems false input.schema) := by
  obtain ⟨config, hread, h⟩ := bind_eq_ok_iff.1 (congrArg Prod.fst h)
  cases h
  exact ⟨config, Config.read_eq_ok_iff.1 hread, rfl⟩

/-- **When names are declared once.** Whatever one of the plugins writes for a schema, the names it declares are distinct if and
only if their origins are apart. -/
theorem declared_once_iff {document : SchemaDocument} (hs : Schema.ofDocument document = .ok input.schema) :
    (Plugin.typeScriptTypes.generate input ctx = (.ok out, after) →
      ∃ config, TypeScriptOptions.decode input.config = .ok config ∧
        out.content = TypeScriptTypes.writeAll config (TypeScriptTypes.declarations input.schema config) ∧
        (((TypeScriptTypes.declarations input.schema config).map (·.name)).Nodup ↔
          (TypeScriptTypes.origins input.schema config).Apart)) ∧
    (Plugin.flowTypes.generate input ctx = (.ok out, after) →
      ∃ config, FlowOptions.decode input.config = .ok config ∧
        out.content = String.intercalate "\n\n"
          ((FlowTypes.declarations input.schema config).map (FlowTypes.write config)) ∧
        (((FlowTypes.declarations input.schema config).map (·.name)).Nodup ↔
          (FlowTypes.origins input.schema config).Apart)) ∧
    (Plugin.kotlinClasses.generate input ctx = (.ok out, after) →
      ∃ config, KotlinOptions.decode input.config = .ok config ∧
        out.content = KotlinClasses.write ⟨input.schema, ScalarTargets.kotlin.overriddenBy config.scalars⟩
          (classItems config.withTypes input.schema) ∧
        (((classItems config.withTypes input.schema).map (·.name)).Nodup ↔
          (classOrigins config.withTypes input.schema).Apart)) ∧
    (Plugin.javaClasses.generate input ctx = (.ok out, after) →
      ∃ config, JavaOptions.decode input.config = .ok config ∧
        out.content = JavaClasses.holder ⟨input.schema, ScalarTargets.java.overriddenBy config.scalars⟩ config.className
          (classItems false input.schema) ∧
        (((classItems false input.schema).map (·.name)).Nodup ↔ (classOrigins false input.schema).Apart)) := by
  have hclasses : ∀ withObjects, (((classItems withObjects input.schema).map (·.name)).Nodup ↔
      (classOrigins withObjects input.schema).Apart) := fun withObjects =>
    (classItems_perm withObjects input.schema).nodup_iff.trans
      (Origins.nodup_names_iff (distinct_schemaOrigins hs List.nodup_nil fun _ => .refl _))
  refine ⟨fun h => ?_, fun h => ?_, fun h => ?_, fun h => ?_⟩
  · obtain ⟨config, hconfig, hcontent⟩ := types_of_generate h
    refine ⟨config, hconfig, hcontent, (TypeScriptTypes.declarations_origins input.schema config).nodup_iff.trans ?_⟩
    exact Origins.nodup_names_iff (distinct_schemaOrigins hs (by decide) (TypeScriptTypes.ownFields_sublist config))
  · obtain ⟨config, hconfig, hcontent⟩ := FlowTypes.types_of_generate h
    refine ⟨config, hconfig, hcontent, (FlowTypes.declarations_origins input.schema config).nodup_iff.trans ?_⟩
    exact Origins.nodup_names_iff (distinct_schemaOrigins hs (by decide) fun _ => .refl _)
  · obtain ⟨config, hconfig, hcontent⟩ := KotlinClasses.classes_of_generate h
    exact ⟨config, hconfig, hcontent, hclasses config.withTypes⟩
  · obtain ⟨config, hconfig, hcontent⟩ := JavaClasses.classes_of_generate h
    exact ⟨config, hconfig, hcontent, hclasses false⟩

end Generate

/-- users have posts, the first ones or all -/
def postTypes : SchemaDocument :=
  [.type ⟨none, "User", [], .object []
    [⟨none, "posts", [⟨none, "first", .named "Int", none, []⟩], .list (.named "String"), []⟩]⟩]

/-- an input object with the name of the arguments of the posts -/
def clashingTypes : SchemaDocument :=
  postTypes ++ [.type ⟨none, "UserPostsArgs", [], .inputObject [⟨none, "first", .named "Int", none, []⟩]⟩]

/-- a target without documents and configuration -/
def typesView (document : SchemaDocument) : PluginView where
  schema := (Schema.ofDocument document).toOption.getD default
  documents := []
  fragments := .empty
  config := .obj []
  filePath := "types"
  pluginNames := []

/-- the options of the TypeScript types there -/
def plainTypeScript : TypeScriptOptions :=
  ⟨{}, "T | null", false, false, false, false⟩

theorem declared_once_iff_posts :
    ∃ out after, Schema.ofDocument postTypes = .ok (typesView postTypes).schema ∧
      Plugin.typeScriptTypes.generate (typesView postTypes) .empty = (.ok out, after) ∧
      (TypeScriptTypes.declarations (typesView postTypes).schema plainTypeScript).map (·.name)
        = ["Maybe", "Scalars", "User", "UserPostsArgs"] ∧
      (TypeScriptTypes.origins (typesView postTypes).schema plainTypeScript).Apart := by
  have hs : Schema.ofDocument postTypes = .ok (typesView postTypes).schema := rfl
  obtain ⟨out, after, hg⟩ : ∃ out after, Plugin.typeScriptTypes.generate (typesView postTypes) .empty = (.ok out, after) :=
    ⟨_, _, rfl⟩
  have hnames : (TypeScriptTypes.declarations (typesView postTypes).schema plainTypeScript).map (·.name)
      = ["Maybe", "Scalars", "User", "UserPostsArgs"] := by decide +kernel
  obtain ⟨config, hconfig, -, honce⟩ := (declared_once_iff hs).1 hg
  cases (show TypeScriptOptions.decode (typesView postTypes).config = .ok plainTypeScript from rfl).symm.trans hconfig
  refine ⟨out, after, hs, hg, hnames, honce.1 ?_⟩
  rw [hnames]
  decide

/-- **Names may be declared twice:** an accepted schema and configuration, under which all four plugins declare the arguments of
the posts and the input object under one name. -/
theorem declared_twice :
    ∃ types flow kotlin java after, Schema.ofDocument clashingTypes = .ok (typesView clashingTypes).schema ∧
      Plugin.typeScriptTypes.generate (typesView clashingTypes) .empty = (.ok types, after) ∧
      Plugin.flowTypes.generate (typesView clashingTypes) .empty = (.ok flow, after) ∧
      Plugin.kotlinClasses.generate (typesView clashingTypes) after = (.ok kotlin, after) ∧
      Plugin.javaClasses.generate (typesView clashingTypes) after = (.ok java, after) ∧
      types.content = TypeScriptTypes.writeAll plainTypeScript
        (TypeScriptTypes.declarations (typesView clashingTypes).schema plainTypeScript) ∧
      ¬ ((TypeScriptTypes.declarations (typesView clashingTypes).schema plainTypeScript).map (·.name)).Nodup ∧
      flow.content = String.intercalate "\n\n"
        ((FlowTypes.declarations (typesView clashingTypes).schema ⟨{}, true, false⟩).map
          (FlowTypes.write ⟨{}, true, false⟩)) ∧
      ¬ ((FlowTypes.declarations (typesView clashingTypes).schema ⟨{}, true, false⟩).map (·.name)).Nodup ∧
      kotlin.content = KotlinClasses.write ⟨(typesView clashingTypes).schema, .kotlin⟩
        (classItems false (typesView clashingTypes).schema) ∧
      java.content = JavaClasses.holder ⟨(typesView clashingTypes).schema, .java⟩ "Types"
        (classItems false (typesView clashingTypes).schema) ∧
      ¬ ((classItems false (typesView clashingTypes).schema).map (·.name)).Nodup := by
  refine ⟨_, _, _, _, _, rfl, rfl, rfl, rfl, rfl, rfl, ?_, rfl, ?_, rfl, rfl, ?_⟩
  all_goals decide +kernel

end GraphGen

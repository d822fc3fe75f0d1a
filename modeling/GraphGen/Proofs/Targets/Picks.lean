/-
Picks name declared properties.

Documents become terms before they become text (`OperationTypes.Setting.terms`): the types of their operations and fragments,
with references to schema types as such. Written in the dialect they are the declarations (`declarations_eq`).

A pick or look-up in them takes a field from a type of the schema that has it (`refersToFields_terms`). The schema types declare
this field as a property of the type, but for two things that they leave out on purpose: types whose names begin with two
underscores, and in a federated schema the fields that are external. Operations look fields up without regard to either.

Main results:
- `picks_declared`: what the types of operations refer to is declared by the schema types, but for these.
- `picks_undeclared`: an external field is picked and not declared, and so is a field of such a type.
-/
import GraphGen.Proofs.Shape.Terms
import GraphGen.Targets.OperationTypes

namespace GraphGen

namespace OperationTypes.Setting

variable (setting : Setting)

/-! ## The terms of documents -/

/-- a named type: a scalar as such, any other type by the name it gets -/
def referenceTerm (name : String) : TypeTerm :=
  if setting.target.schema.kind? name = some .scalar then .scalar name else .named (setting.names.apply name)

/-- the property of a variable -/
def variableTerm (v : VariableDefinition) : Except Error TermMember := do
  let type := WrappedType.ofExpr v.type
  let _ ← setting.target.schema.requireType type.name
  let optional := setting.target.isOptional type || v.default.isSome
  pure (.mk v.name (.wrapped type.wrapping (setting.referenceTerm type.name)) optional)

/-- the type of the variables of an operation -/
def variablesTerm (declared : List VariableDefinition) : Except Error TypeTerm :=
  TypeTerm.object <$> declared.mapM setting.variableTerm

/-- the type of a selection set on a schema type -/
def shapeTerm (parent : String) (selections : SelectionSet) : Except Error TypeTerm :=
  let ctx : ShapeContext := ⟨setting.target.schema, setting.fragments, setting.target.options⟩
  setting.target.unionTerm <$> (ctx.resolve parent [selections]).result

/-- the type of a fragment under its name -/
def fragmentTerm (fragment : Fragment) : Except Error (String × TypeTerm) :=
  (fragment.name ++ "Fragment", ·) <$> setting.shapeTerm fragment.condition fragment.selections

/-- the types of the variables and of the result of an operation under their names -/
def operationTerms (base : String) (op : Operation) : Except Error (List (String × TypeTerm)) := do
  let root ← setting.rootName op.kind
  let declared ← setting.variablesTerm op.variableDefinitions
  let result ← setting.shapeTerm root op.selections
  pure [(base ++ "Variables", declared), (base, result)]

/-- the types of documents under their names, when `before` unnamed operations came before them -/
def termsFrom (before : Nat) : List LocatedDocument → Except Error (List (String × TypeTerm))
  | [] => .ok []
  | source :: rest => do
    let fragments ← source.fragments.mapM setting.fragmentTerm
    let named := nameOperations setting.options.dedupeSuffix before source.operations
    let operations ← named.mapM fun (base, op) => setting.operationTerms base op
    let more ← termsFrom (before + countUnnamed source.operations) rest
    pure (fragments ++ operations.flatten ++ more)

/-- the types of documents under their names -/
def terms (documents : List LocatedDocument) : Except Error (List (String × TypeTerm)) :=
  setting.termsFrom 0 documents

/-- a type under its name as a declaration in the dialect -/
def declareTerm (entry : String × TypeTerm) : Declaration :=
  setting.declare entry.1 (entry.2.write setting.target.dialect)

/-! ## Writing them -/

variable {setting} (hp : setting.options.preResolve = false)

theorem write_referenceTerm (name : String) :
    (setting.referenceTerm name).write setting.target.dialect =
      (scopeOf setting.target setting.names).namedReference name := by
  have hscope : (scopeOf setting.target setting.names).namedReference name =
      if setting.target.schema.kind? name = some .scalar then
        setting.target.dialect.propertyType SchemaScope.scalarsName name else setting.names.apply name := rfl
  rw [hscope, referenceTerm, apply_ite (TypeTerm.write setting.target.dialect), TypeTerm.write, TypeTerm.write]

include hp in
theorem variableProperty_eq (v : VariableDefinition) :
    setting.variableProperty v = TermMember.write setting.target.dialect <$> setting.variableTerm v := by
  unfold variableProperty variableTerm
  dsimp only
  rw [map_bind]
  refine bind_congr fun _ => ?_
  rw [if_neg (by simp [hp]), map_pure, TermMember.write, TypeTerm.write, write_referenceTerm]
  rfl

include hp in
theorem variablesType_eq (declared : List VariableDefinition) :
    setting.variablesType declared = TypeTerm.write setting.target.dialect <$> setting.variablesTerm declared := by
  unfold variablesType variablesTerm
  rw [funext (variableProperty_eq hp), mapM_map_values, bind_pure_comp, Functor.map_map, Functor.map_map]
  refine congrArg (· <$> _) (funext fun members => ?_)
  rw [TypeTerm.write, TypeTerm.writeMembers_eq_map]

include hp in
theorem shapeType_eq (parent : String) (selections : SelectionSet) :
    setting.shapeType parent selections = TypeTerm.write setting.target.dialect <$> setting.shapeTerm parent selections := by
  unfold shapeType shapeTerm
  dsimp only
  rw [bind_pure_comp, Functor.map_map]
  refine congrArg (· <$> _) (funext fun shapes => ?_)
  have hstrategy : setting.strategy = .pick := by rw [strategy, hp]; rfl
  rw [hstrategy, Target.write_unionTerm]

include hp in
theorem fragmentDeclaration_eq (fragment : Fragment) :
    setting.fragmentDeclaration fragment = setting.declareTerm <$> setting.fragmentTerm fragment := by
  unfold fragmentDeclaration fragmentTerm
  rw [shapeType_eq hp, bind_pure_comp, Functor.map_map, Functor.map_map]
  rfl

include hp in
theorem operationDeclarations_eq (base : String) (op : Operation) :
    setting.operationDeclarations base op = List.map setting.declareTerm <$> setting.operationTerms base op := by
  unfold operationDeclarations operationTerms
  simp only [shapeType_eq hp, variablesType_eq hp, map_bind, bind_map_left, map_pure]
  rfl

include hp in
/-- **The declarations are the terms of the documents, written in the dialect.** -/
theorem declarations_eq (documents : List LocatedDocument) :
    setting.declarations documents = List.map setting.declareTerm <$> setting.terms documents := by
  unfold declarations terms
  generalize 0 = before
  induction documents generalizing before with
  | nil => rfl
  | cons source rest ih =>
    rw [declarationsFrom, termsFrom, funext (fragmentDeclaration_eq hp), mapM_map_values]
    simp only [operationDeclarations_eq hp, mapM_map_values, ih, map_bind, bind_map_left, map_pure, List.map_append, List.map_flatten]

/-! ## What they refer to -/

/-- a type and a name are those of a field: the name that its type gets, and its own -/
def FieldAt (setting : Setting) (type name : String) : Prop :=
  ∃ owner field, setting.target.schema.HasField owner field ∧ type = setting.target.typeName owner ∧ name = field.name

/-- all references of the term are to fields -/
def RefersToFields (setting : Setting) (term : TypeTerm) : Prop :=
  ∀ type name, term.Refers type name → setting.FieldAt type name

/-- variables refer to no fields -/
theorem not_refers_variablesTerm {declared : List VariableDefinition} {term : TypeTerm}
    (h : setting.variablesTerm declared = .ok term) {type name : String} : ¬ term.Refers type name := by
  obtain ⟨members, hm, rfl⟩ := map_eq_ok_iff.1 h
  intro href
  cases href with
  | object hmember href =>
    obtain ⟨v, -, hv⟩ := exists_of_mem_mapM hm _ hmember
    obtain ⟨_, -, hv⟩ := bind_eq_ok_iff.1 hv
    cases hv
    cases href with
    | wrapped href =>
      unfold referenceTerm at href
      split at href <;> cases href

theorem refersToFields_shapeTerm {parent : String} {selections : SelectionSet} {term : TypeTerm}
    (h : setting.shapeTerm parent selections = .ok term) : setting.RefersToFields term := by
  obtain ⟨shapes, hr, rfl⟩ := map_eq_ok_iff.1 h
  exact fun type name href => ShapeContext.hasField_of_refers hr href

theorem refersToFields_operationTerms {base : String} {op : Operation} {entries : List (String × TypeTerm)}
    (h : setting.operationTerms base op = .ok entries) : ∀ entry ∈ entries, setting.RefersToFields entry.2 := by
  obtain ⟨root, -, h⟩ := bind_eq_ok_iff.1 h
  obtain ⟨declared, hd, h⟩ := bind_eq_ok_iff.1 h
  obtain ⟨result, hr, h⟩ := bind_eq_ok_iff.1 h
  cases h
  intro entry hm
  simp only [List.mem_cons, List.not_mem_nil, or_false] at hm
  rcases hm with rfl | rfl
  · exact fun type name href => absurd href (not_refers_variablesTerm hd)
  · exact refersToFields_shapeTerm hr

/-- **The types of documents refer to fields.** -/
theorem refersToFields_terms {documents : List LocatedDocument} {entries : List (String × TypeTerm)}
    (h : setting.terms documents = .ok entries) : ∀ entry ∈ entries, setting.RefersToFields entry.2 := by
  unfold terms at h
  generalize 0 = before at h
  induction documents generalizing before entries with
  | nil =>
    cases h
    simp
  | cons source rest ih =>
    obtain ⟨fragments, hf, h⟩ := bind_eq_ok_iff.1 h
    obtain ⟨operations, ho, h⟩ := bind_eq_ok_iff.1 h
    obtain ⟨more, hm, h⟩ := bind_eq_ok_iff.1 h
    cases h
    refine List.forall_mem_append.2 ⟨List.forall_mem_append.2 ⟨fun entry he => ?_, fun entry he => ?_⟩, ih _ hm⟩
    · obtain ⟨fragment, -, hfragment⟩ := exists_of_mem_mapM hf entry he
      obtain ⟨term, hterm, rfl⟩ := map_eq_ok_iff.1 hfragment
      exact refersToFields_shapeTerm hterm
    · obtain ⟨made, hmade, he⟩ := List.mem_flatten.1 he
      obtain ⟨pair, -, hpair⟩ := exists_of_mem_mapM ho made hmade
      exact refersToFields_operationTerms hpair entry he

end OperationTypes.Setting

/-! ## What the schema types declare -/

namespace TypeScriptTypes

/-- the declarations declare the type with a property of that name -/
def Declares (declared : List Declaration) (type name : String) : Prop :=
  ∃ d ∈ declared, d.name = type ∧ name ∈ d.properties.map (·.key)

instance (declared : List Declaration) (type name : String) : Decidable (Declares declared type name) :=
  inferInstanceAs (Decidable (∃ d ∈ declared, _))

variable {document : SchemaDocument} {schema : Schema} {config : TypeScriptOptions}

/-- the field is left out: its type is one of the introspection system, or it is an external field of a federated schema -/
def LeavesOut (config : TypeScriptOptions) (owner : String) (field : Field) : Prop :=
  Text.startsWith "__" owner = true ∨ config.federation = true ∧ field.carries "external" = true

/-- only objects and interfaces have fields -/
theorem kind_of_mem_fields {type : NamedType} {field : Field} (hf : field ∈ type.fields.values) :
    type.kind = .object ∨ type.kind = .interface := by
  unfold NamedType.fields at hf
  unfold NamedType.kind
  split at hf
  · rename_i hc
    exact Or.inl (by rw [hc])
  · rename_i hc
    exact Or.inr (by rw [hc])
  · cases hf

/-- a type with fields is declared with them, but for those that are left out -/
theorem declares_typeDeclarations (scope : SchemaScope) {type : NamedType} {field : Field} (hf : field ∈ type.fields.values)
    (hkept : ¬ (config.federation = true ∧ field.carries "external" = true)) :
    Declares (typeDeclarations scope config type) (scope.typeName type.name) field.name := by
  have hown : field ∈ ownFields config type := by
    refine List.mem_filter.2 ⟨hf, ?_⟩
    rw [Bool.not_eq_true', Bool.eq_false_iff]
    exact fun hboth => hkept (Bool.and_eq_true_iff.1 hboth)
  have hproperty : field.name ∈ (objectProperties scope config type).map (·.key) := by
    rw [objectProperties, List.map_append, List.map_map]
    exact List.mem_append_right _ (List.mem_map.2 ⟨field, hown, rfl⟩)
  unfold typeDeclarations
  rcases kind_of_mem_fields hf with hk | hk
  · rw [hk]
    exact ⟨_, List.mem_cons_self, rfl, hproperty⟩
  · rw [hk]
    exact ⟨_, List.mem_cons_self, rfl, hproperty⟩

/-- **The fields of an accepted schema are declared,** but for those that are left out. -/
theorem declares_of_hasField (hs : Schema.ofDocument document = .ok schema) {owner : String} {field : Field}
    (hf : schema.HasField owner field) (hkept : ¬ LeavesOut config owner field) :
    Declares (declarations schema config) (config.common.names.apply owner) field.name := by
  obtain ⟨type, ht, hm⟩ := hf
  have hname := Schema.name_eq hs ht
  subst hname
  obtain ⟨hmeta, hexternal⟩ := not_or.1 hkept
  have hown : type ∈ schema.ownTypes := by
    refine List.mem_filter.2 ⟨Schema.mem_values_of_type? ht, ?_⟩
    have hbuiltin : type.builtin = false := by
      by_contra hb
      have hscalar := Schema.kind_of_builtin hs ht (by simpa using hb)
      rcases kind_of_mem_fields hm with hk | hk <;> rw [hk] at hscalar <;> cases hscalar
    simpa [hbuiltin, NamedType.isMeta] using hmeta
  obtain ⟨d, hd, hdeclares⟩ := declares_typeDeclarations (scope schema config) hm hexternal
  exact ⟨d, List.mem_cons_of_mem _ (List.mem_cons_of_mem _ (List.mem_flatMap.2 ⟨type, hown, hd⟩)), hdeclares⟩

end TypeScriptTypes

/-! ## Both plugins on one target -/

/-- the shared options are read from the same members -/
theorem common_eq_of_decode {json : Json} {config : TypeScriptOptions} {options : TypeScriptOperationsOptions}
    (hc : TypeScriptOptions.decode json = .ok config) (ho : TypeScriptOperationsOptions.decode json = .ok options) :
    options.common = config.common := by
  obtain ⟨members, hm, hc⟩ := bind_eq_ok_iff.1 hc
  obtain ⟨common, hcommon, hc⟩ := bind_eq_ok_iff.1 hc
  obtain ⟨members', hm', ho⟩ := bind_eq_ok_iff.1 ho
  obtain ⟨common', hcommon', ho⟩ := bind_eq_ok_iff.1 ho
  cases hm.symm.trans hm'
  cases hcommon.symm.trans hcommon'
  have hconfig : config.common = common := by
    iterate 5 obtain ⟨_, -, hc⟩ := bind_eq_ok_iff.1 hc
    cases hc
    rfl
  have hoptions : options.common = common := by
    iterate 3 obtain ⟨_, -, ho⟩ := bind_eq_ok_iff.1 ho
    cases ho
    rfl
  rw [hoptions, hconfig]

theorem types_of_generate {input : PluginView} {ctx after : SharedValues} {types : Contribution}
    (h : Plugin.typeScriptTypes.generate input ctx = (.ok types, after)) :
    ∃ config, TypeScriptOptions.decode input.config = .ok config ∧
      types.content = TypeScriptTypes.writeAll config (TypeScriptTypes.declarations input.schema config) := by
  change TypeScriptTypes.output input ctx = _ at h
  unfold TypeScriptTypes.output at h
  split at h
  · cases h
  · rename_i config hread
    cases h
    refine ⟨config, Config.read_eq_ok_iff.1 hread, ?_⟩
    dsimp only

/-- what the operations of a target are turned into types with -/
def TypeScriptOperations.settingOf (input : PluginView) (options : TypeScriptOperationsOptions) :
    OperationTypes.Setting :=
  OperationTypes.setting input (.typeScript options.nullMark options.common.immutableTypes) options.common options.options

/-- types under their names as they are written -/
def TypeScriptOperations.writeTerms (options : TypeScriptOperationsOptions) (entries : List (String × TypeTerm)) : String :=
  String.intercalate "\n\n" <| entries.map fun entry =>
    "export type " ++ options.common.names.apply entry.1 ++ " = " ++
      entry.2.write (.typeScript options.nullMark options.common.immutableTypes) ++ ";"

/-- what is rendered is the declarations of the documents, as they are written -/
theorem OperationTypes.declarations_of_render {setting : OperationTypes.Setting} {documents : List LocatedDocument}
    {content : String} (h : OperationTypes.render setting documents = .ok content) :
    ∃ declared, setting.declarations documents = .ok declared ∧
      content = String.intercalate "\n\n" (declared.map OperationTypes.write) := by
  obtain ⟨declared, hdeclared, h⟩ := bind_eq_ok_iff.1 h
  cases h
  exact ⟨declared, hdeclared, rfl⟩

/-- and this is what the plugin for operations generates -/
theorem TypeScriptOperations.declarations_of_generate {input : PluginView} {ctx after : SharedValues}
    {operations : Contribution} (h : Plugin.typeScriptOperations.generate input ctx = (.ok operations, after)) :
    ∃ options declared, TypeScriptOperationsOptions.decode input.config = .ok options ∧
      (settingOf input options).declarations input.documents = .ok declared ∧
      operations.content = String.intercalate "\n\n" (declared.map OperationTypes.write) := by
  obtain ⟨options, hread, h⟩ := bind_eq_ok_iff.1 (congrArg Prod.fst h)
  obtain ⟨content, hrender, h⟩ := bind_eq_ok_iff.1 h
  cases h
  obtain ⟨declared, hdeclared, hcontent⟩ := OperationTypes.declarations_of_render hrender
  exact ⟨options, declared, Config.read_eq_ok_iff.1 hread, hdeclared, hcontent⟩

/-- where types are not written out, these are the terms of the documents, as they are written -/
theorem terms_of_generate {input : PluginView} {ctx after : SharedValues} {operations : Contribution}
    {options : TypeScriptOperationsOptions} (h : Plugin.typeScriptOperations.generate input ctx = (.ok operations, after))
    (hread : TypeScriptOperationsOptions.decode input.config = .ok options) (hp : options.preResolveTypes = false) :
    ∃ entries, (TypeScriptOperations.settingOf input options).terms input.documents = .ok entries ∧
      operations.content = TypeScriptOperations.writeTerms options entries := by
  obtain ⟨read, declared, hr, hdeclared, hcontent⟩ := TypeScriptOperations.declarations_of_generate h
  cases hread.symm.trans hr
  rw [TypeScriptOperations.settingOf, OperationTypes.Setting.declarations_eq hp] at hdeclared
  obtain ⟨entries, hentries, rfl⟩ := map_eq_ok_iff.1 hdeclared
  refine ⟨entries, hentries, ?_⟩
  rw [hcontent, List.map_map]
  rfl

/-- **Picks name declared properties.** When a target of an accepted schema has the types of the schema and then those of its
operations, and these refer to schema types, every type and field that they pick or look up is a field of the schema, and the
types of the schema declare it as a property of the type, unless it is left out. -/
theorem picks_declared {document : SchemaDocument} {input : PluginView} {ctx after last : SharedValues}
    {types operations : Contribution} {options : TypeScriptOperationsOptions}
    (hs : Schema.ofDocument document = .ok input.schema)
    (ht : Plugin.typeScriptTypes.generate input ctx = (.ok types, after))
    (ho : Plugin.typeScriptOperations.generate input after = (.ok operations, last))
    (hread : TypeScriptOperationsOptions.decode input.config = .ok options) (hp : options.preResolveTypes = false) :
    ∃ config entries, TypeScriptOptions.decode input.config = .ok config ∧
      types.content = TypeScriptTypes.writeAll config (TypeScriptTypes.declarations input.schema config) ∧
      (TypeScriptOperations.settingOf input options).terms input.documents = .ok entries ∧
      operations.content = TypeScriptOperations.writeTerms options entries ∧
      ∀ entry ∈ entries, ∀ type name, entry.2.Refers type name →
        ∃ owner field, input.schema.HasField owner field ∧ type = config.common.names.apply owner ∧ name = field.name ∧
          (¬ TypeScriptTypes.LeavesOut config owner field →
            TypeScriptTypes.Declares (TypeScriptTypes.declarations input.schema config) type name) := by
  obtain ⟨config, hconfig, hcontent⟩ := types_of_generate ht
  obtain ⟨entries, hentries, hwritten⟩ := terms_of_generate ho hread hp
  refine ⟨config, entries, hconfig, hcontent, hentries, hwritten, fun entry he type name href => ?_⟩
  obtain ⟨owner, field, hf, htype, rfl⟩ := OperationTypes.Setting.refersToFields_terms hentries entry he type name href
  have hname : type = config.common.names.apply owner := by
    rw [← common_eq_of_decode hconfig hread]
    exact htype
  refine ⟨owner, field, hf, hname, rfl, fun hkept => ?_⟩
  rw [hname]
  exact TypeScriptTypes.declares_of_hasField hs hf hkept

/-- a user whose mail address another service owns, and a version of the introspection system -/
def ownedTypes : SchemaDocument :=
  [.type ⟨none, "Query", [], .object [] [⟨none, "user", [], .named "User", []⟩, ⟨none, "meta", [], .named "__Meta", []⟩]⟩,
    .type ⟨none, "User", [], .object []
      [⟨none, "id", [], .named "ID", []⟩, ⟨none, "email", [], .named "String", [⟨"external", []⟩]⟩]⟩,
    .type ⟨none, "__Meta", [], .object [] [⟨none, "version", [], .named "Int", []⟩]⟩]

/-- a query of both -/
def ownedQuery : LocatedDocument :=
  ⟨"q.graphql", [.operation ⟨.keyword .query (some "Q") [] [],
    [.field none "user" [] [] [.field (some "key") "id" [] [] [], .field none "email" [] [] []],
      .field none "meta" [] [] [.field none "version" [] [] []]], ⟨1, 1⟩⟩]⟩

/-- a target of both plugins, whose schema is federated -/
def ownedView : PluginView where
  schema := (Schema.ofDocument ownedTypes).toOption.getD default
  documents := [ownedQuery]
  fragments := .empty
  config := .obj [("federation", .bool true)]
  filePath := "ops.ts"
  pluginNames := ["typescript", "typescript-operations"]

/-- the options of the schema types there -/
def ownedConfig : TypeScriptOptions :=
  ⟨{}, "T | null", false, false, true, false⟩

/-- the options of the operations there -/
def ownedOptions : TypeScriptOperationsOptions :=
  ⟨{}, false, none, false⟩

/-- the terms of the query -/
def ownedTerms : List (String × TypeTerm) :=
  let user : TypeTerm := .all [.object [.mk "__typename" (.literals ["User"]) true], .pick "User" ["email"],
    .object [.mk "key" (.lookup "User" "id") true]]
  let version : TypeTerm := .all [.object [.mk "__typename" (.literals ["__Meta"]) true], .pick "__Meta" ["version"]]
  [("QQueryVariables", .object []),
    ("QQuery", .any [.all [.object [.mk "__typename" (.literals ["Query"]) true],
      .object [.mk "user" (.wrapped .nullable (.any [user])) true,
        .mk "meta" (.wrapped .nullable (.any [version])) true]]])]

theorem generates_ownedView :
    ∃ types after operations, Plugin.typeScriptTypes.generate ownedView .empty = (.ok types, after) ∧
      Plugin.typeScriptOperations.generate ownedView after = (.ok operations, after) :=
  ⟨_, _, _, rfl, rfl⟩

theorem terms_ownedView : (TypeScriptOperations.settingOf ownedView ownedOptions).terms ownedView.documents = .ok ownedTerms :=
  rfl

theorem refers_ownedTerms : ∀ reference ∈ [("User", "id"), ("User", "email"), ("__Meta", "version")],
    ∃ entry ∈ ownedTerms, entry.2.Refers reference.1 reference.2 := by
  intro reference hm
  refine ⟨_, List.mem_of_getElem? (i := 1) rfl, .any List.mem_cons_self (.all (List.mem_of_getElem? (i := 1) rfl) ?_)⟩
  simp only [List.mem_cons, List.not_mem_nil, or_false] at hm
  rcases hm with rfl | rfl | rfl
  · exact .object List.mem_cons_self <| .wrapped <| .any List.mem_cons_self <|
      .all (List.mem_of_getElem? (i := 2) rfl) (.object List.mem_cons_self .lookup)
  · exact .object List.mem_cons_self <| .wrapped <| .any List.mem_cons_self <|
      .all (List.mem_of_getElem? (i := 1) rfl) (.pick List.mem_cons_self)
  · exact .object (List.mem_of_getElem? (i := 1) rfl) <| .wrapped <| .any List.mem_cons_self <|
      .all (List.mem_of_getElem? (i := 1) rfl) (.pick List.mem_cons_self)

/-- the renamed identifier is looked up in the user, where it is declared -/
theorem picks_declared_id :
    ∃ types after operations, Schema.ofDocument ownedTypes = .ok ownedView.schema ∧
      Plugin.typeScriptTypes.generate ownedView .empty = (.ok types, after) ∧
      Plugin.typeScriptOperations.generate ownedView after = (.ok operations, after) ∧
      TypeScriptOperationsOptions.decode ownedView.config = .ok ownedOptions ∧ ownedOptions.preResolveTypes = false ∧
      operations.content = TypeScriptOperations.writeTerms ownedOptions ownedTerms ∧
      (∃ entry ∈ ownedTerms, entry.2.Refers "User" "id") ∧
      types.content = TypeScriptTypes.writeAll ownedConfig (TypeScriptTypes.declarations ownedView.schema ownedConfig) ∧
      TypeScriptTypes.Declares (TypeScriptTypes.declarations ownedView.schema ownedConfig) "User" "id" := by
  obtain ⟨types, after, operations, ht, ho⟩ := generates_ownedView
  have hs : Schema.ofDocument ownedTypes = .ok ownedView.schema := rfl
  have hread : TypeScriptOperationsOptions.decode ownedView.config = .ok ownedOptions := rfl
  obtain ⟨config, entries, hconfig, htypes, hentries, hoperations, hfields⟩ := picks_declared hs ht ho hread rfl
  cases (show TypeScriptOptions.decode ownedView.config = .ok ownedConfig from rfl).symm.trans hconfig
  cases terms_ownedView.symm.trans hentries
  obtain ⟨entry, he, hrefers⟩ := refers_ownedTerms ("User", "id") List.mem_cons_self
  obtain ⟨owner, field, ⟨type, hg, hm⟩, howner, hname, hdeclared⟩ := hfields entry he "User" "id" hrefers
  have huser : owner = "User" := by simpa [NameAffixes.apply, SharedOptions.names, ownedConfig] using howner.symm
  subst huser
  -- the field of that name is not external
  have hexternal : field.carries "external" = false := by
    cases (show ownedView.schema.type? "User" = some _ from rfl).symm.trans hg
    have hown : ∀ field ∈ ((ownedView.schema.type? "User").getD default).fields.values, field.name = "id" →
        field.carries "external" = false := by decide +kernel
    exact hown field hm hname.symm
  refine ⟨types, after, operations, hs, ht, ho, hread, rfl, hoperations, ⟨entry, he, hrefers⟩, htypes, hdeclared ?_⟩
  rintro (hmeta | ⟨-, hcarries⟩)
  · exact absurd hmeta (by decide +kernel)
  · rw [hexternal] at hcarries
    cases hcarries

/-- **Picks also name what is not declared:** the external mail address, and the version of the introspection system. -/
theorem picks_undeclared :
    ∃ types after operations, Schema.ofDocument ownedTypes = .ok ownedView.schema ∧
      Plugin.typeScriptTypes.generate ownedView .empty = (.ok types, after) ∧
      Plugin.typeScriptOperations.generate ownedView after = (.ok operations, after) ∧
      TypeScriptOperationsOptions.decode ownedView.config = .ok ownedOptions ∧ ownedOptions.preResolveTypes = false ∧
      operations.content = TypeScriptOperations.writeTerms ownedOptions ownedTerms ∧
      types.content = TypeScriptTypes.writeAll ownedConfig (TypeScriptTypes.declarations ownedView.schema ownedConfig) ∧
      ∀ reference ∈ [("User", "email"), ("__Meta", "version")],
        (∃ entry ∈ ownedTerms, entry.2.Refers reference.1 reference.2) ∧
          ¬ TypeScriptTypes.Declares (TypeScriptTypes.declarations ownedView.schema ownedConfig) reference.1 reference.2 := by
  obtain ⟨types, after, operations, ht, ho⟩ := generates_ownedView
  have hread : TypeScriptOperationsOptions.decode ownedView.config = .ok ownedOptions := rfl
  obtain ⟨config, hconfig, htypes⟩ := types_of_generate ht
  cases (show TypeScriptOptions.decode ownedView.config = .ok ownedConfig from rfl).symm.trans hconfig
  obtain ⟨entries, hentries, hoperations⟩ := terms_of_generate ho hread rfl
  cases terms_ownedView.symm.trans hentries
  refine ⟨types, after, operations, rfl, ht, ho, hread, rfl, hoperations, htypes, fun reference hm => ⟨?_, ?_⟩⟩
  · exact refers_ownedTerms reference (List.mem_cons_of_mem _ hm)
  · have hundeclared : ∀ reference ∈ [("User", "email"), ("__Meta", "version")],
        ¬ TypeScriptTypes.Declares (TypeScriptTypes.declarations ownedView.schema ownedConfig) reference.1 reference.2 := by
      decide +kernel
    exact hundeclared reference hm

end GraphGen

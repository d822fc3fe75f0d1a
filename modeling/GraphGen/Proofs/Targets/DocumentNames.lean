/-
Names that documents are declared under.

The type of a fragment ends in `Fragment`. An operation has two types: its base name, which ends in its kind, and that name with
`Variables` behind it. So what is made of different sorts never meets, and only operations of one kind can have one base name.
Fragments are told apart when they are indexed. Nobody does the same for operations.

- `BaseOrigin`: what a base name is made of: the kind of an operation, and what stands before it. Different origins have different
  base names (`BaseOrigin.name_injective`).
- `namedOrigins`, `countedOrigins`: the origins of the operations with a name, and of those without one, which are counted
  through all documents. The counted ones are distinct (`nodup_countedOrigins`).
- `OperationsApart`, `ConstantsApart`: the origins, or the constants, of operations are distinct and met by nothing else.

Main results:
- `documents_declared_once_iff`: the types and constants of documents are declared once exactly when they are apart.
- `documents_declared_twice`: two operations with one base name, and an operation and a fragment with one constant.
-/
import Mathlib.Data.List.Nodup
import Mathlib.Data.List.Perm.Basic
import GraphGen.Proofs.Targets.DeclaredNames
import GraphGen.Proofs.Targets.DeclarationOrder

namespace GraphGen

/-! ## Endings -/

/-- of two endings of one text, one is an ending of the other -/
theorem suffix_or_suffix_of_append_eq {stem other ending last : String} (h : stem ++ ending = other ++ last) :
    ending.toList <:+ last.toList ∨ last.toList <:+ ending.toList := by
  have hchars := congrArg String.toList h
  rw [String.toList_append, String.toList_append] at hchars
  refine List.suffix_or_suffix_of_suffix (List.suffix_append stem.toList _) ?_
  rw [hchars]
  exact List.suffix_append _ _

/-- no kind ends in another one -/
theorem OperationKind.eq_of_suffix : ∀ kind other : OperationKind,
    kind.typeName.toList <:+ other.typeName.toList ∨ other.typeName.toList <:+ kind.typeName.toList → kind = other := by
  intro kind other
  cases kind <;> cases other <;> decide +kernel

/-- the ending of the type of variables, or of a fragment, is not the kind of an operation -/
theorem OperationKind.not_suffix (kind : OperationKind) : ∀ ending ∈ ["Variables", "Fragment"],
    ¬ (ending.toList <:+ kind.typeName.toList ∨ kind.typeName.toList <:+ ending.toList) := by
  cases kind <;> decide +kernel

/-- numbers are told apart by their digits -/
theorem eq_of_numberText {m n : Nat} (h : toString m = toString n) : m = n := by
  have hdigits := congrArg String.toList h
  rw [Nat.toString_eq_repr, Nat.toString_eq_repr, Nat.toList_repr, Nat.toList_repr] at hdigits
  rw [← @Nat.ofDigitChars_ten_toDigits m, hdigits, Nat.ofDigitChars_ten_toDigits]

namespace OperationTypes

/-! ## The origins of base names -/

/-- what a base name is made of -/
structure BaseOrigin where
  /-- what stands before the kind -/
  stem : String
  kind : OperationKind
  deriving DecidableEq, Inhabited

/-- the base name -/
def BaseOrigin.name (origin : BaseOrigin) : String :=
  origin.stem ++ origin.kind.typeName

/-- the name of an operation up to the kind that it ends in, where that is not repeated -/
def stemOf (dedupeSuffix : Bool) (kind : OperationKind) (name : String) : String :=
  if dedupeSuffix && Text.endsWith kind.typeName name then
    String.ofList (name.toList.take (name.toList.length - kind.typeName.toList.length))
  else name

/-- the origins of operations with a name -/
def namedOrigins (dedupeSuffix : Bool) (operations : List Operation) : List BaseOrigin :=
  operations.filterMap fun op => op.name.map fun name => ⟨stemOf dedupeSuffix op.kind name, op.kind⟩

/-- the origins of operations without a name, numbered from `first` on -/
def countedOrigins (first : Nat) (operations : List Operation) : List BaseOrigin :=
  ((operations.filter (·.name.isNone)).zipIdx first).map fun (op, number) =>
    ⟨"Unnamed_" ++ toString number ++ "_", op.kind⟩

/-- the origins of operations with a name are distinct, and none of them is that of an operation without a name -/
structure OperationsApart (dedupeSuffix : Bool) (operations : List Operation) : Prop where
  named : (namedOrigins dedupeSuffix operations).Nodup
  counted : ∀ origin ∈ namedOrigins dedupeSuffix operations, origin ∉ countedOrigins 1 operations

theorem BaseOrigin.name_injective : Function.Injective BaseOrigin.name := by
  rintro ⟨stem, kind⟩ ⟨other, last⟩ h
  obtain rfl := kind.eq_of_suffix last (suffix_or_suffix_of_append_eq h)
  have hstem : stem = other := (String.append_left_inj _).1 h
  rw [hstem]

theorem name_stemOf (dedupeSuffix : Bool) (kind : OperationKind) (name : String) :
    stemOf dedupeSuffix kind name ++ kind.typeName =
      if dedupeSuffix && Text.endsWith kind.typeName name then name else name ++ kind.typeName := by
  unfold stemOf
  split
  · rename_i h
    have hends : kind.typeName.toList <:+ name.toList := List.isSuffixOf_iff_suffix.1 (Bool.and_eq_true_iff.1 h).2
    apply String.toList_inj.1
    rw [String.toList_append, String.toList_ofList]
    exact List.suffix_iff_eq_append.1 hends
  · rfl

/-- **Base names come from their origins,** those of the named operations and those of the counted ones. -/
theorem baseNames_perm (dedupeSuffix : Bool) (before : Nat) (operations : List Operation) :
    ((nameOperations dedupeSuffix before operations).map Prod.fst).Perm
      ((namedOrigins dedupeSuffix operations ++ countedOrigins (before + 1) operations).map BaseOrigin.name) := by
  induction operations generalizing before with
  | nil => exact .nil
  | cons op rest ih =>
    rw [nameOperations, List.map_cons]
    cases hname : op.name with
    | some name =>
      have hbase : baseName dedupeSuffix (before + 1) op = BaseOrigin.name ⟨stemOf dedupeSuffix op.kind name, op.kind⟩ := by
        rw [BaseOrigin.name, name_stemOf, baseName, hname]
      have hnamed : namedOrigins dedupeSuffix (op :: rest) =
          ⟨stemOf dedupeSuffix op.kind name, op.kind⟩ :: namedOrigins dedupeSuffix rest := by
        simp [namedOrigins, hname]
      have hcounted : countedOrigins (before + 1) (op :: rest) = countedOrigins (before + 1) rest := by
        simp [countedOrigins, hname]
      rw [hbase, hnamed, hcounted]
      exact (ih before).cons _
    | none =>
      have hbase : baseName dedupeSuffix (before + 1) op =
          BaseOrigin.name ⟨"Unnamed_" ++ toString (before + 1) ++ "_", op.kind⟩ := by
        rw [BaseOrigin.name, baseName, hname]
      have hnamed : namedOrigins dedupeSuffix (op :: rest) = namedOrigins dedupeSuffix rest := by
        simp [namedOrigins, hname]
      have hcounted : countedOrigins (before + 1) (op :: rest) =
          ⟨"Unnamed_" ++ toString (before + 1) ++ "_", op.kind⟩ :: countedOrigins (before + 1 + 1) rest := by
        simp [countedOrigins, hname]
      rw [hbase, hnamed, hcounted]
      exact ((ih (before + 1)).cons _).trans (List.perm_middle.symm.map BaseOrigin.name)

/-- **Operations without a name are told apart** by their numbers. -/
theorem nodup_countedOrigins (first : Nat) (operations : List Operation) : (countedOrigins first operations).Nodup := by
  have hnumbers : (((operations.filter (·.name.isNone)).zipIdx first).map Prod.snd).Nodup := by
    rw [List.zipIdx_map_snd]
    exact List.nodup_range'
  refine List.pairwise_map.2 ((List.pairwise_map.1 hnumbers).imp fun hne heq => hne ?_)
  obtain ⟨hstem, -⟩ := BaseOrigin.mk.inj heq
  exact eq_of_numberText ((String.append_right_inj _).1 ((String.append_left_inj _).1 hstem))

/-- base names are distinct exactly when operations are apart -/
theorem nodup_baseNames_iff (dedupeSuffix : Bool) (operations : List Operation) :
    ((nameOperations dedupeSuffix 0 operations).map Prod.fst).Nodup ↔ OperationsApart dedupeSuffix operations := by
  rw [(baseNames_perm dedupeSuffix 0 operations).nodup_iff, List.nodup_map_iff BaseOrigin.name_injective, List.nodup_append]
  constructor
  · rintro ⟨hnamed, -, hapart⟩
    exact ⟨hnamed, fun origin hn hc => hapart origin hn origin hc rfl⟩
  · rintro ⟨hnamed, hcounted⟩
    exact ⟨hnamed, nodup_countedOrigins 1 operations, fun origin hn _ hc heq => hcounted origin hn (heq ▸ hc)⟩

/-- every base name ends in a kind -/
theorem exists_kind_of_baseName {dedupeSuffix : Bool} {before : Nat} {operations : List Operation} {base : String}
    (h : base ∈ (nameOperations dedupeSuffix before operations).map Prod.fst) :
    ∃ (stem : String) (kind : OperationKind), base = stem ++ kind.typeName := by
  obtain ⟨origin, -, rfl⟩ := List.mem_map.1 ((baseNames_perm dedupeSuffix before operations).mem_iff.1 h)
  exact ⟨origin.stem, origin.kind, rfl⟩

theorem nameOperations_append (dedupeSuffix : Bool) (before : Nat) (operations more : List Operation) :
    nameOperations dedupeSuffix before (operations ++ more) =
      nameOperations dedupeSuffix before operations ++
        nameOperations dedupeSuffix (before + countUnnamed operations) more := by
  induction operations generalizing before with
  | nil => rfl
  | cons op rest ih =>
    rw [List.cons_append, nameOperations, ih, nameOperations, List.cons_append, countUnnamed, countUnnamed]
    cases hname : op.name <;> simp [hname, Nat.add_assoc, Nat.add_comm 1]

/-! ## The names of types -/

/-- the names that the types of documents are made of, sort by sort -/
def typeNames (dedupeSuffix : Bool) (before : Nat) (documents : List LocatedDocument) : List String :=
  let bases := (nameOperations dedupeSuffix before (documents.flatMap (·.operations))).map Prod.fst
  (documents.flatMap (·.fragments)).map (·.name ++ "Fragment") ++ (bases.map (· ++ "Variables") ++ bases)

/-- **When the names of types are distinct:** when operations are apart, and so are the fragments. -/
theorem nodup_typeNames_iff {documents : List LocatedDocument} (hf : ((documents.flatMap (·.fragments)).map (·.name)).Nodup)
    (dedupeSuffix : Bool) :
    (typeNames dedupeSuffix 0 documents).Nodup ↔ OperationsApart dedupeSuffix (documents.flatMap (·.operations)) := by
  rw [← nodup_baseNames_iff, typeNames]
  have hkind := @exists_kind_of_baseName dedupeSuffix 0 (documents.flatMap (·.operations))
  generalize (nameOperations dedupeSuffix 0 (documents.flatMap (·.operations))).map Prod.fst = bases at hkind ⊢
  have hfragments : ((documents.flatMap (·.fragments)).map (·.name ++ "Fragment")).Nodup := by
    have hmap := (List.nodup_map_iff (f := (· ++ "Fragment")) fun _ _ => (String.append_left_inj _).1).2 hf
    rwa [List.map_map] at hmap
  have hvariables : (bases.map (· ++ "Variables")).Nodup ↔ bases.Nodup :=
    List.nodup_map_iff fun _ _ => (String.append_left_inj _).1
  -- a base name ends in a kind, so that neither of the other endings is its own
  have hending : ∀ ending ∈ ["Variables", "Fragment"], ∀ stem, stem ++ ending ∉ bases := by
    intro ending hm stem hb
    obtain ⟨other, kind, heq⟩ := hkind hb
    exact kind.not_suffix ending hm (suffix_or_suffix_of_append_eq heq)
  rw [List.nodup_append, List.nodup_append, hvariables]
  constructor
  · exact fun h => h.2.1.1
  · refine fun hb => ⟨hfragments, ⟨hb, hb, ?_⟩, ?_⟩
    · intro name hname base hbase heq
      obtain ⟨other, -, rfl⟩ := List.mem_map.1 hname
      exact hending "Variables" (by simp) other (heq ▸ hbase)
    · intro name hname other hother heq
      obtain ⟨fragment, -, rfl⟩ := List.mem_map.1 hname
      rcases List.mem_append.1 hother with hother | hother
      · obtain ⟨base, -, rfl⟩ := List.mem_map.1 hother
        exact absurd (suffix_or_suffix_of_append_eq heq) (by decide +kernel)
      · exact hending "Fragment" (by simp) fragment.name (heq ▸ hother)

namespace Setting

variable {setting : Setting}

theorem name_of_fragmentDeclaration {fragment : Fragment} {declared : Declaration}
    (h : setting.fragmentDeclaration fragment = .ok declared) :
    declared.name = setting.names.apply (fragment.name ++ "Fragment") := by
  obtain ⟨_, -, h⟩ := bind_eq_ok_iff.1 h
  cases h
  rfl

theorem names_of_operationDeclarations {base : String} {op : Operation} {declared : List Declaration}
    (h : setting.operationDeclarations base op = .ok declared) :
    declared.map (·.name) = [setting.names.apply (base ++ "Variables"), setting.names.apply base] := by
  obtain ⟨_, -, h⟩ := bind_eq_ok_iff.1 h
  obtain ⟨_, -, h⟩ := bind_eq_ok_iff.1 h
  obtain ⟨_, -, h⟩ := bind_eq_ok_iff.1 h
  cases h
  rfl

theorem names_of_fragmentDeclarations {fragments : List Fragment} {declared : List Declaration}
    (h : fragments.mapM setting.fragmentDeclaration = .ok declared) :
    declared.map (·.name) = (fragments.map (·.name ++ "Fragment")).map setting.names.apply := by
  have hsteps := mapM_eq_ok_iff.1 h
  clear h
  induction hsteps with
  | nil => rfl
  | cons hx _ ih => rw [List.map_cons, ih, name_of_fragmentDeclaration hx, List.map_cons, List.map_cons]

theorem names_of_namedOperations {named : List (String × Operation)} {declared : List (List Declaration)}
    (h : named.mapM (fun (base, op) => setting.operationDeclarations base op) = .ok declared) :
    (declared.flatten.map (·.name)).Perm
      (((named.map Prod.fst).map (· ++ "Variables") ++ named.map Prod.fst).map setting.names.apply) := by
  have hsteps := mapM_eq_ok_iff.1 h
  clear h
  induction hsteps with
  | nil => exact .nil
  | cons hx _ ih =>
    rw [List.flatten_cons, List.map_append, names_of_operationDeclarations hx]
    refine (List.Perm.append_left _ ih).trans ?_
    simp only [List.map_cons, List.map_append, List.cons_append, List.nil_append]
    exact .cons _ List.perm_middle.symm

/-- **The names of the declared types,** up to their order -/
theorem names_perm {before : Nat} {documents : List LocatedDocument} {declared : List Declaration}
    (h : setting.declarationsFrom before documents = .ok declared) :
    (declared.map (·.name)).Perm
      ((typeNames setting.options.dedupeSuffix before documents).map setting.names.apply) := by
  induction documents generalizing before declared with
  | nil =>
    cases h
    exact .nil
  | cons source rest ih =>
    obtain ⟨fragments, hfragments, h⟩ := bind_eq_ok_iff.1 h
    obtain ⟨operations, hoperations, h⟩ := bind_eq_ok_iff.1 h
    obtain ⟨more, hmore, h⟩ := bind_eq_ok_iff.1 h
    cases h
    have hnames := names_of_fragmentDeclarations hfragments
    have hown := List.perm_iff_count.1 (names_of_namedOperations hoperations)
    have hrest := List.perm_iff_count.1 (ih hmore)
    -- the three sorts of a document stand before those of the documents behind it
    refine List.perm_iff_count.2 fun name => ?_
    have hown := hown name
    have hrest := hrest name
    simp only [typeNames, List.flatMap_cons, nameOperations_append, List.map_append, List.count_append] at hown hrest ⊢
    rw [hnames, hown, hrest]
    omega

/-- types are declared once exactly when operations are apart -/
theorem nodup_names_iff {documents : List LocatedDocument} {declared : List Declaration}
    (hf : ((documents.flatMap (·.fragments)).map (·.name)).Nodup) (h : setting.declarations documents = .ok declared) :
    (declared.map (·.name)).Nodup ↔
      OperationsApart setting.options.dedupeSuffix (documents.flatMap (·.operations)) := by
  rw [(names_perm h).nodup_iff, List.nodup_map_iff fun _ _ => NameAffixes.apply_inj.1]
  exact nodup_typeNames_iff hf _

end Setting

end OperationTypes

/-! ## The names of constants -/

namespace DocumentConstants

variable {config : DocumentConstantsOptions} {documents : List LocatedDocument}

/-- the names of operations are distinct, and none has the constant of a fragment -/
structure ConstantsApart (config : DocumentConstantsOptions) (documents : List LocatedDocument) : Prop where
  operations : ((documents.flatMap (·.operations)).filterMap (·.name)).Nodup
  fragments : ∀ name ∈ (documents.flatMap (·.operations)).filterMap (·.name),
    ∀ fragment ∈ documents.flatMap (·.fragments), config.documentName name ≠ config.fragmentName fragment.name

theorem documentName_injective : Function.Injective config.documentName := by
  intro first second h
  rw [DocumentConstantsOptions.documentName, DocumentConstantsOptions.documentName, String.append_left_inj,
    String.append_right_inj] at h
  exact h

/-- constants are declared once exactly when they are apart -/
theorem nodup_definitions_iff (hf : ((documents.flatMap (·.fragments)).map (·.name)).Nodup) :
    ((definitions config documents).map Prod.fst).Nodup ↔ ConstantsApart config documents := by
  have hoperations : ((documents.flatMap (·.operations)).filterMap (namedOperation? config)).map Prod.fst =
      ((documents.flatMap (·.operations)).filterMap (·.name)).map config.documentName := by
    rw [List.map_filterMap, List.map_filterMap]
    refine List.filterMap_congr fun op _ => ?_
    cases hname : op.name <;> simp [namedOperation?, hname]
  have hfragments : ((documents.flatMap (·.fragments)).map fun f => config.fragmentName f.name).Nodup := by
    have hmap := (List.nodup_map_iff (@fragmentName_injective config)).2 hf
    rwa [List.map_map] at hmap
  rw [definitions, List.map_append, List.map_map, hoperations, List.nodup_append,
    List.nodup_map_iff (@documentName_injective config)]
  constructor
  · rintro ⟨-, hnames, hapart⟩
    exact ⟨hnames, fun name hn fragment hm heq =>
      hapart _ (List.mem_map_of_mem hm) _ (List.mem_map_of_mem hn) heq.symm⟩
  · rintro ⟨hnames, hapart⟩
    refine ⟨hfragments, hnames, fun constant hc other ho heq => ?_⟩
    obtain ⟨fragment, hm, rfl⟩ := List.mem_map.1 hc
    obtain ⟨name, hn, rfl⟩ := List.mem_map.1 ho
    exact hapart name hn fragment hm heq.symm

end DocumentConstants

/-! ## What the plugins write -/

/-- the fragments of documents that were indexed have names of their own -/
theorem nodup_fragmentNames {documents : List LocatedDocument} {external : List Fragment} {fragments : FragmentIndex}
    (h : FragmentIndex.ofDocuments documents external = .ok fragments) :
    ((documents.flatMap (·.fragments)).map (·.name)).Nodup := by
  have hnodup := FragmentIndex.nodup_local_of_entries (FragmentIndex.ofDocuments_ok h).1
  rw [FragmentIndex.localFragments, List.map_flatMap] at hnodup
  rw [List.map_flatMap]
  simpa only [List.map_map, Function.comp_def] using hnodup

section Generate

open DocumentConstants OperationTypes

variable {input : PluginView} {ctx after : SharedValues} {out : Contribution} {external : List Fragment}

/-- the declared types of documents for Flow -/
def FlowOperations.settingOf (input : PluginView) (options : FlowOperationsOptions) : OperationTypes.Setting :=
  OperationTypes.setting input options.flow.dialect options.flow.common options.options

theorem FlowOperations.declarations_of_generate (h : Plugin.flowOperations.generate input ctx = (.ok out, after)) :
    ∃ options declared, FlowOperationsOptions.decode input.config = .ok options ∧
      (settingOf input options).declarations input.documents = .ok declared ∧
      out.content = String.intercalate "\n\n" (declared.map write) := by
  obtain ⟨options, hread, h⟩ := bind_eq_ok_iff.1 (congrArg Prod.fst h)
  obtain ⟨content, hrender, h⟩ := bind_eq_ok_iff.1 h
  cases h
  obtain ⟨declared, hdeclared, hcontent⟩ := declarations_of_render hrender
  exact ⟨options, declared, Config.read_eq_ok_iff.1 hread, hdeclared, hcontent⟩

/-- what is generated are the definitions of the documents as constants, or their re-export -/
theorem DocumentConstants.definitions_of_generate
    (h : Plugin.documentConstants.generate input ctx = (.ok out, after)) :
    ∃ config, readConfig input.config = .ok config ∧
      (config.mode = .external → out.content = reexport config input.documents) ∧
      (config.mode ≠ .external → ∃ made : List Constant,
        made.map (fun c => (c.name, c.definition)) = definitions config input.documents ∧
        out.content = String.intercalate "\n\n" (made.map (·.render config))) := by
  have ho : output input = .ok out := congrArg Prod.fst h
  obtain ⟨config, hconfig, ho⟩ := bind_eq_ok_iff.1 ho
  refine ⟨config, hconfig, fun hm => ?_, fun hm => ?_⟩
  · rw [if_pos hm] at ho
    cases ho
    rfl
  · obtain ⟨made, hmade, hcontent⟩ := constants_of_generate hconfig hm h
    exact ⟨made, (constants_eq_ok hmade).1, hcontent⟩

/-- **When documents are declared once.** Let the fragments of documents and from outside be indexed. Whatever the plugins write
for the documents: the names of their types, for variables, results and fragments, are distinct if and only if the origins of
operations are apart; and the names of their constants are distinct if and only if these are. -/
theorem documents_declared_once_iff
    (hf : FragmentIndex.ofDocuments input.documents external = .ok input.fragments) :
    (Plugin.typeScriptOperations.generate input ctx = (.ok out, after) →
      ∃ options declared, TypeScriptOperationsOptions.decode input.config = .ok options ∧
        (TypeScriptOperations.settingOf input options).declarations input.documents = .ok declared ∧
        out.content = String.intercalate "\n\n" (declared.map write) ∧
        ((declared.map (·.name)).Nodup ↔
          OperationsApart options.dedupeOperationSuffix (input.documents.flatMap (·.operations)))) ∧
    (Plugin.flowOperations.generate input ctx = (.ok out, after) →
      ∃ options declared, FlowOperationsOptions.decode input.config = .ok options ∧
        (FlowOperations.settingOf input options).declarations input.documents = .ok declared ∧
        out.content = String.intercalate "\n\n" (declared.map write) ∧
        ((declared.map (·.name)).Nodup ↔
          OperationsApart options.dedupeOperationSuffix (input.documents.flatMap (·.operations)))) ∧
    (Plugin.documentConstants.generate input ctx = (.ok out, after) →
      ∃ config, readConfig input.config = .ok config ∧
        (config.mode = .external → out.content = reexport config input.documents) ∧
        (config.mode ≠ .external → ∃ made : List Constant,
          made.map (fun c => (c.name, c.definition)) = definitions config input.documents ∧
          out.content = String.intercalate "\n\n" (made.map (·.render config))) ∧
        (((definitions config input.documents).map Prod.fst).Nodup ↔ ConstantsApart config input.documents)) := by
  have hfragments := nodup_fragmentNames hf
  refine ⟨fun h => ?_, fun h => ?_, fun h => ?_⟩
  · obtain ⟨options, declared, hread, hdeclared, hcontent⟩ := TypeScriptOperations.declarations_of_generate h
    exact ⟨options, declared, hread, hdeclared, hcontent, Setting.nodup_names_iff hfragments hdeclared⟩
  · obtain ⟨options, declared, hread, hdeclared, hcontent⟩ := FlowOperations.declarations_of_generate h
    exact ⟨options, declared, hread, hdeclared, hcontent, Setting.nodup_names_iff hfragments hdeclared⟩
  · obtain ⟨config, hconfig, hexternal, hmade⟩ := DocumentConstants.definitions_of_generate h
    exact ⟨config, hconfig, hexternal, hmade, nodup_definitions_iff hfragments⟩

/-- users to query and to change -/
def accountTypes : SchemaDocument :=
  let user : FieldDeclaration := ⟨none, "user", [], .named "User", []⟩
  [.type ⟨none, "Query", [], .object [] [user]⟩, .type ⟨none, "Mutation", [], .object [] [user]⟩,
    .type ⟨none, "User", [], .object [] [⟨none, "id", [], .named "ID", []⟩]⟩]

/-- an operation of that kind and name, with the identifier of the user -/
def userOperation (kind : OperationKind) (name : Option String) : Definition :=
  .operation ⟨.keyword kind name [] [], [.field none "user" [] [] [.field none "id" [] [] []]], ⟨1, 1⟩⟩

/-- a fragment of that name with the identifier of a user -/
def userFragment (name : String) : Definition :=
  .fragment ⟨name, "User", [], [.field none "id" [] [] []]⟩

/-- a target for documents -/
def accountView (documents : List LocatedDocument) (config : Json) : PluginView where
  schema := (Schema.ofDocument accountTypes).toOption.getD default
  documents := documents
  fragments := (FragmentIndex.ofDocuments documents []).toOption.getD .empty
  config := config
  filePath := "account.ts"
  pluginNames := []

/-- a query and a fragment of one name, a mutation, and a query without a name -/
def apartView : PluginView :=
  accountView [⟨"user.graphql", [userOperation .query (some "User"), userFragment "User"]⟩,
    ⟨"change.graphql", [userOperation .mutation (some "Change"), userOperation .query none]⟩] (.obj [])

/-- the names of their types -/
def apartNames : List String :=
  ["UserFragment", "UserQueryVariables", "UserQuery", "ChangeMutationVariables", "ChangeMutation",
    "Unnamed_1_QueryVariables", "Unnamed_1_Query"]

theorem documents_declared_once_iff_apart :
    FragmentIndex.ofDocuments apartView.documents [] = .ok apartView.fragments ∧
    ∃ types flow constants, Plugin.typeScriptOperations.generate apartView .empty = (.ok types, .empty) ∧
      Plugin.flowOperations.generate apartView .empty = (.ok flow, .empty) ∧
      Plugin.documentConstants.generate apartView .empty = (.ok constants, .empty) ∧
      (∃ declared : List Declaration, types.content = String.intercalate "\n\n" (declared.map write) ∧
        declared.map (·.name) = apartNames) ∧
      (∃ declared : List Declaration, flow.content = String.intercalate "\n\n" (declared.map write) ∧
        declared.map (·.name) = apartNames) ∧
      OperationsApart false (apartView.documents.flatMap (·.operations)) ∧
      ConstantsApart plainOptions apartView.documents := by
  have hf : FragmentIndex.ofDocuments apartView.documents [] = .ok apartView.fragments := rfl
  obtain ⟨types, htypes⟩ : ∃ out, Plugin.typeScriptOperations.generate apartView .empty = (.ok out, .empty) := ⟨_, rfl⟩
  obtain ⟨flow, hflow⟩ : ∃ out, Plugin.flowOperations.generate apartView .empty = (.ok out, .empty) := ⟨_, rfl⟩
  obtain ⟨constants, hconstants⟩ : ∃ out, Plugin.documentConstants.generate apartView .empty = (.ok out, .empty) :=
    ⟨_, rfl⟩
  obtain ⟨options, declared, hread, hdeclared, hcontent, honce⟩ := (documents_declared_once_iff hf).1 htypes
  cases (show TypeScriptOperationsOptions.decode apartView.config = .ok ⟨{}, false, none, false⟩ from rfl).symm.trans
    hread
  have hnames : declared.map (·.name) = apartNames := by
    cases (show (TypeScriptOperations.settingOf apartView ⟨{}, false, none, false⟩).declarations apartView.documents =
      .ok _ from rfl).symm.trans hdeclared
    rfl
  obtain ⟨options, flowDeclared, hread, hdeclared, hflowContent, -⟩ := (documents_declared_once_iff hf).2.1 hflow
  cases (show FlowOperationsOptions.decode apartView.config = .ok ⟨⟨{}, true, false⟩, false, false⟩ from rfl).symm.trans
    hread
  have hflowNames : flowDeclared.map (·.name) = apartNames := by
    cases (show (FlowOperations.settingOf apartView ⟨⟨{}, true, false⟩, false, false⟩).declarations apartView.documents =
      .ok _ from rfl).symm.trans hdeclared
    rfl
  obtain ⟨config, hconfig, -, -, hconstantsOnce⟩ := (documents_declared_once_iff hf).2.2 hconstants
  cases (show readConfig apartView.config = .ok plainOptions from rfl).symm.trans hconfig
  refine ⟨hf, types, flow, constants, htypes, hflow, hconstants, ⟨declared, hcontent, hnames⟩,
    ⟨flowDeclared, hflowContent, hflowNames⟩, honce.1 ?_, hconstantsOnce.1 ?_⟩
  · rw [hnames]
    decide
  · decide +kernel

/-- two queries whose names differ in the kind at the end, which is not repeated, and a fragment whose constant gets the ending
of those of operations -/
def meetingView : PluginView :=
  accountView [⟨"user.graphql", [userOperation .query (some "User"), userOperation .query (some "UserQuery"),
    userFragment "User"]⟩]
    (.obj [("dedupeOperationSuffix", .bool true), ("fragmentVariableSuffix", .str "Document")])

/-- the options of the constants there -/
def meetingOptions : DocumentConstantsOptions :=
  { plainOptions with fragmentSuffix := "Document" }

/-- **Documents may declare names twice:** accepted options, under which both queries have one base name, and one of them has the
constant of the fragment. -/
theorem documents_declared_twice :
    Schema.ofDocument accountTypes = .ok meetingView.schema ∧
    FragmentIndex.ofDocuments meetingView.documents [] = .ok meetingView.fragments ∧
    Plugin.typeScriptOperations.check meetingView = .ok () ∧ Plugin.documentConstants.check meetingView = .ok () ∧
    ∃ (types constants : Contribution) (declared : List Declaration) (made : List Constant),
      Plugin.typeScriptOperations.generate meetingView .empty = (.ok types, .empty) ∧
      types.content = String.intercalate "\n\n" (declared.map write) ∧
      declared.map (·.name) = ["UserFragment", "UserQueryVariables", "UserQuery", "UserQueryVariables", "UserQuery"] ∧
      ¬ (declared.map (·.name)).Nodup ∧
      Plugin.documentConstants.generate meetingView .empty = (.ok constants, .empty) ∧
      constants.content = String.intercalate "\n\n" (made.map (·.render meetingOptions)) ∧
      made.map (·.name) = ["UserDocument", "UserDocument", "UserQueryDocument"] ∧ ¬ (made.map (·.name)).Nodup := by
  obtain ⟨types, htypes⟩ : ∃ out, Plugin.typeScriptOperations.generate meetingView .empty = (.ok out, .empty) :=
    ⟨_, rfl⟩
  obtain ⟨options, declared, hread, hdeclared, hcontent⟩ := TypeScriptOperations.declarations_of_generate htypes
  cases (show TypeScriptOperationsOptions.decode meetingView.config = .ok ⟨{}, false, none, true⟩ from rfl).symm.trans
    hread
  have hnames : declared.map (·.name) =
      ["UserFragment", "UserQueryVariables", "UserQuery", "UserQueryVariables", "UserQuery"] := by
    cases (show (TypeScriptOperations.settingOf meetingView ⟨{}, false, none, true⟩).declarations meetingView.documents =
      .ok _ from rfl).symm.trans hdeclared
    rfl
  obtain ⟨constants, hconstants⟩ : ∃ out, Plugin.documentConstants.generate meetingView .empty = (.ok out, .empty) :=
    ⟨_, rfl⟩
  obtain ⟨config, hconfig, -, hmade⟩ := definitions_of_generate hconstants
  cases (show readConfig meetingView.config = .ok meetingOptions from rfl).symm.trans hconfig
  obtain ⟨made, hdefinitions, hmadeContent⟩ := hmade nofun
  have hmadeNames : made.map (·.name) = ["UserDocument", "UserDocument", "UserQueryDocument"] := by
    have hfirst := congrArg (List.map Prod.fst) hdefinitions
    rwa [List.map_map] at hfirst
  refine ⟨rfl, rfl, rfl, rfl, types, constants, declared, made, htypes, hcontent, hnames, ?_, hconstants, hmadeContent,
    hmadeNames, ?_⟩
  · rw [hnames]
    decide
  · rw [hmadeNames]
    decide

end Generate

end GraphGen

/-
The references of an introspection result.

A reader of the result finds references in two ways: as root types, which have a name only, and anywhere else as objects with
the member `ofType`, which end the chain of wrappers around a named type and carry a kind (`Refers`). It looks for their
types among the entries of `types` (`Lists`).

The types of fields, arguments and input fields, root types, interfaces and possible types are those that an accepted
schema checked. The arguments of directives are not checked; what is said of their types holds of those that the schema has.
And the types whose names begin with two underscores are not listed, whoever refers to them.

- `lists_answer_iff`: the entries are the types of the schema, each with its kind, but for those names.
- `linksIn_typeObject`, `linksIn_directives`: what the references of a type and of the directives say, one lemma for each
  function that writes a part of the result.

Main results:
- `answer_closed`: references are to entries, but for those names, and their kinds are those of the entries.
- `answer_open`: a type with such a name is referred to and has no entry, and so is a type of a directive's argument that the schema
  does not have.
-/
import GraphGen.Proofs.Schema.Declarable
import GraphGen.Targets.Introspection

namespace GraphGen

/-- a value stands in another one: it is that value, or it stands in an item or a member of it -/
inductive Json.Within (value : Json) : Json → Prop where
  | here : Within value value
  | item {inner : Json} {items : List Json} (hm : inner ∈ items) (h : Within value inner) : Within value (.arr items)
  | member {key : String} {inner : Json} {members : List (String × Json)} (hm : (key, inner) ∈ members)
      (h : Within value inner) : Within value (.obj members)

namespace Introspection

/-! ## References and entries -/

/-- the members of the schema that hold root types -/
def rootMembers : List String :=
  ["queryType", "mutationType", "subscriptionType"]

/-- the result refers to a name in a member of the schema: by a root type, which carries no kind, or by an object with the
member `ofType` anywhere in it -/
inductive Refers (result : Json) (place name : String) (kind : Option Json) : Prop where
  | root {schema root : Json} (hs : result.get? "__schema" = some schema) (hp : place ∈ rootMembers)
      (hr : schema.get? place = some root) (hn : root.get? "name" = some (.str name))
      (hk : root.get? "kind" = kind)
  | link {schema part inner : Json} (node : Json) (hs : result.get? "__schema" = some schema)
      (hp : schema.get? place = some part) (hw : node.Within part) (hi : node.get? "ofType" = some inner)
      (hn : node.get? "name" = some (.str name)) (hk : node.get? "kind" = kind)

/-- the result lists a type of that name with a kind -/
def Lists (result : Json) (name : String) (kind : Json) : Prop :=
  ∃ schema types entry, result.get? "__schema" = some schema ∧ schema.get? "types" = some (.arr types) ∧
    entry ∈ types ∧ entry.get? "name" = some (.str name) ∧ entry.get? "kind" = some kind

/-- every object with the member `ofType` in the value has what is asked of its name and kind, unless it has no name -/
def LinksIn (P : String → Option Json → Prop) (value : Json) : Prop :=
  ∀ (node inner : Json) (name : String), node.Within value → node.get? "ofType" = some inner →
    node.get? "name" = some (.str name) → P name (node.get? "kind")

theorem LinksIn.mono {P Q : String → Option Json → Prop} {value : Json} (himp : ∀ name kind, P name kind → Q name kind)
    (h : LinksIn P value) : LinksIn Q value :=
  fun node inner name hw hi hn => himp name _ (h node inner name hw hi hn)

section Values

variable {P : String → Option Json → Prop}

theorem linksIn_null : LinksIn P .null := by
  rintro node inner name ⟨⟩ ⟨⟩

theorem linksIn_bool (value : Bool) : LinksIn P (.bool value) := by
  rintro node inner name ⟨⟩ ⟨⟩

theorem linksIn_str (text : String) : LinksIn P (.str text) := by
  rintro node inner name ⟨⟩ ⟨⟩

theorem linksIn_optional (text : Option String) : LinksIn P (.optional text) := by
  cases text with
  | none => exact linksIn_null
  | some text => exact linksIn_str text

theorem linksIn_arr {items : List Json} (h : ∀ item ∈ items, LinksIn P item) : LinksIn P (.arr items) := by
  intro node inner name hw hi hn
  cases hw with
  | here => cases hi
  | item hm hw => exact h _ hm node inner name hw hi hn

theorem linksIn_strings (texts : List String) : LinksIn P (.strings texts) := by
  refine linksIn_arr fun item hm => ?_
  obtain ⟨text, -, rfl⟩ := List.mem_map.1 hm
  exact linksIn_str text

/-- an object without the member `ofType` has the links of its members -/
theorem linksIn_obj {members : List (String × Json)} (hno : members.lookup "ofType" = none)
    (h : ∀ member ∈ members, LinksIn P member.2) : LinksIn P (.obj members) := by
  intro node inner name hw hi hn
  cases hw with
  | here => exact absurd (hno.symm.trans hi) nofun
  | member hm hw => exact h _ hm node inner name hw hi hn

theorem linksIn_namedRef {kind : TypeKind} {name : String} (h : P name (some (.str kind.name))) :
    LinksIn P (namedRef kind name) := by
  intro node inner other hw hi hn
  cases hw with
  | here =>
    cases hn
    exact h
  | member hm hw =>
    simp only [List.mem_cons, Prod.mk.injEq, List.not_mem_nil, or_false] at hm
    rcases hm with ⟨-, rfl⟩ | ⟨-, rfl⟩ | ⟨-, rfl⟩
    · exact linksIn_str _ node inner other hw hi hn
    · exact linksIn_str _ node inner other hw hi hn
    · exact linksIn_null node inner other hw hi hn

theorem linksIn_wrapperRef {kind : String} {type : Json} (h : LinksIn P type) : LinksIn P (wrapperRef kind type) := by
  intro node inner name hw hi hn
  cases hw with
  | here => cases hn
  | member hm hw =>
    simp only [List.mem_cons, Prod.mk.injEq, List.not_mem_nil, or_false] at hm
    rcases hm with ⟨-, rfl⟩ | ⟨-, rfl⟩ | ⟨-, rfl⟩
    · exact linksIn_str _ node inner name hw hi hn
    · exact linksIn_null node inner name hw hi hn
    · exact h node inner name hw hi hn

theorem linksIn_markRequired {type : Json} (required : Bool) (h : LinksIn P type) :
    LinksIn P (markRequired required type) := by
  cases required with
  | false => exact h
  | true => exact linksIn_wrapperRef h

/-- wrappers have no name, so that the links of a chain are those of its end -/
theorem linksIn_wrapRef (wrapping : Wrapping) {named : Json} (h : LinksIn P named) :
    LinksIn P (wrapRef wrapping named) := by
  unfold wrapRef
  have hinner := linksIn_markRequired wrapping.innerRequired h
  revert hinner
  generalize markRequired wrapping.innerRequired named = type
  induction wrapping.lists generalizing type with
  | nil => exact id
  | cons required lists ih => exact fun hinner => ih _ (linksIn_markRequired required (linksIn_wrapperRef hinner))

theorem linksIn_itemsWhen {present : Bool} {items : List Json} (h : present = true → ∀ item ∈ items, LinksIn P item) :
    LinksIn P (itemsWhen present items) := by
  cases present with
  | false => exact linksIn_null
  | true => exact linksIn_arr (h rfl)

theorem linksIn_describe (descriptions : Bool) (text : Option String) : LinksIn P (describe descriptions text) := by
  cases descriptions with
  | false => exact linksIn_null
  | true => exact linksIn_optional text

theorem linksIn_deprecationMembers (deprecation : Option Deprecation) :
    ∀ member ∈ deprecationMembers deprecation, LinksIn P member.2 := by
  intro member hm
  simp only [deprecationMembers, List.mem_cons, List.not_mem_nil, or_false] at hm
  rcases hm with rfl | rfl
  · exact linksIn_bool _
  · exact linksIn_optional _

end Values

/-! ## The parts of the result -/

/-- the type of the reference is known to have the kind that it carries, if it is known at all -/
def KindFits (schema : Schema) (name : String) (kind : Option Json) : Prop :=
  kind = none ∨ ∀ found, schema.kind? name = some found → kind = some (.str found.name)

theorem kindFits_of_kind? {schema : Schema} {name : String} {kind : TypeKind} (h : schema.kind? name = some kind) :
    KindFits schema name (some (.str kind.name)) := by
  refine Or.inr fun found hf => ?_
  cases h.symm.trans hf
  rfl

/-- what is said of a reference: that its type is one of those, and that it carries its kind -/
def Sound (schema : Schema) (known : String → Prop) (name : String) (kind : Option Json) : Prop :=
  known name ∧ KindFits schema name kind

section Parts

variable {schema : Schema} {known : String → Prop} (descriptions : Bool)

theorem linksIn_typeChain {type : WrappedType} (h : known type.name) :
    LinksIn (Sound schema known) (typeChain schema type) := by
  refine linksIn_wrapRef _ (linksIn_namedRef ⟨h, Or.inr fun found hf => ?_⟩)
  rw [hf]
  rfl

theorem linksIn_inputValueNode {value : InputValue} (h : known value.type.name) :
    LinksIn (Sound schema known) (inputValueNode schema descriptions value) := by
  refine linksIn_obj rfl fun member hm => ?_
  simp only [List.mem_cons, List.not_mem_nil, or_false] at hm
  rcases hm with rfl | rfl | rfl | rfl
  · exact linksIn_str _
  · exact linksIn_describe _ _
  · exact linksIn_typeChain h
  · exact linksIn_optional _

theorem linksIn_inputValueNodes {values : List InputValue} (h : ∀ value ∈ values, known value.type.name) :
    LinksIn (Sound schema known) (inputValueNodes schema descriptions values) := by
  refine linksIn_arr fun item hm => ?_
  obtain ⟨value, hv, rfl⟩ := List.mem_map.1 hm
  exact linksIn_inputValueNode descriptions (h value hv)

theorem linksIn_fieldNode {field : Field} (ht : known field.type.name)
    (ha : ∀ argument ∈ field.arguments, known argument.type.name) :
    LinksIn (Sound schema known) (fieldNode schema descriptions field) := by
  refine linksIn_obj rfl fun member hm => ?_
  rcases List.mem_append.1 hm with hm | hm
  · simp only [List.mem_cons, List.not_mem_nil, or_false] at hm
    rcases hm with rfl | rfl | rfl | rfl
    · exact linksIn_str _
    · exact linksIn_describe _ _
    · exact linksIn_inputValueNodes descriptions ha
    · exact linksIn_typeChain ht
  · exact linksIn_deprecationMembers _ member hm

theorem linksIn_enumValueNode (value : EnumValue) :
    LinksIn (Sound schema known) (enumValueNode descriptions value) := by
  refine linksIn_obj rfl fun member hm => ?_
  rcases List.mem_append.1 hm with hm | hm
  · simp only [List.mem_cons, List.not_mem_nil, or_false] at hm
    rcases hm with rfl | rfl
    · exact linksIn_str _
    · exact linksIn_describe _ _
  · exact linksIn_deprecationMembers _ member hm

/-- references to types of one kind -/
theorem linksIn_namedRefs {names : List String} {kind : TypeKind}
    (h : ∀ name ∈ names, known name ∧ schema.kind? name = some kind) :
    ∀ item ∈ names.map (namedRef kind), LinksIn (Sound schema known) item := by
  intro item hm
  obtain ⟨name, hn, rfl⟩ := List.mem_map.1 hm
  exact linksIn_namedRef ⟨(h name hn).1, kindFits_of_kind? (h name hn).2⟩

end Parts

section Accepted

variable {document : SchemaDocument} {schema : Schema} (descriptions : Bool)

/-- **The references of a type** are to types of the schema. -/
theorem linksIn_typeObject (hs : Schema.ofDocument document = .ok schema) {type : NamedType}
    (hm : type ∈ schema.types.values) :
    LinksIn (Sound schema schema.Knows) (typeObject schema descriptions type) := by
  have ht := Schema.type?_name hs hm
  refine linksIn_obj rfl fun member hmember => ?_
  simp only [List.mem_cons, List.not_mem_nil, or_false] at hmember
  rcases hmember with rfl | rfl | rfl | rfl | rfl | rfl | rfl | rfl
  · exact linksIn_str _
  · exact linksIn_str _
  · exact linksIn_describe _ _
  · refine linksIn_itemsWhen fun _ item hi => ?_
    obtain ⟨field, hf, rfl⟩ := List.mem_map.1 hi
    obtain ⟨htype, harguments⟩ := Schema.knows_of_mem_fields hs hm field hf
    exact linksIn_fieldNode descriptions htype harguments
  · refine linksIn_itemsWhen fun _ item hi => ?_
    obtain ⟨field, hf, rfl⟩ := List.mem_map.1 hi
    exact linksIn_inputValueNode descriptions (Schema.knows_of_mem_inputFields hs hm field hf)
  · refine linksIn_itemsWhen fun _ => linksIn_namedRefs fun interface hi => ?_
    have hkind := Schema.interface_of_mem hs ht hi
    exact ⟨Schema.knows_of_kind? hkind, hkind⟩
  · refine linksIn_itemsWhen fun _ item hi => ?_
    obtain ⟨value, -, rfl⟩ := List.mem_map.1 hi
    exact linksIn_enumValueNode descriptions value
  · refine linksIn_itemsWhen fun _ => linksIn_namedRefs fun concrete hc => ?_
    have hkind := Schema.object_of_mem_possibleTypes hs hc
    exact ⟨Schema.knows_of_kind? hkind, hkind⟩

/-- the name is that of the type of a declared directive's argument -/
def OfDirective (schema : Schema) (name : String) : Prop :=
  ∃ d ∈ schema.directives.values, ∃ argument ∈ d.arguments, argument.type.name = name

theorem linksIn_directiveNode {P : String → Option Json → Prop} {name : String} {description arguments : Json}
    {locations : List DirectiveLocation} (hd : LinksIn P description) (ha : LinksIn P arguments) :
    LinksIn P (directiveNode name description locations arguments) := by
  refine linksIn_obj rfl fun member hm => ?_
  simp only [List.mem_cons, List.not_mem_nil, or_false] at hm
  rcases hm with rfl | rfl | rfl | rfl
  · exact linksIn_str _
  · exact hd
  · exact linksIn_strings _
  · exact ha

/-- the directives that every schema knows have arguments of built-in scalars -/
theorem argumentType_mem_builtinScalars :
    ∀ d ∈ standardDirectives, d.argumentType.name ∈ Schema.builtinScalars := by
  decide

theorem linksIn_standardDirectiveNode (hs : Schema.ofDocument document = .ok schema) {d : StandardDirective}
    (hd : d ∈ standardDirectives) :
    LinksIn (Sound schema schema.Knows) (standardDirectiveNode descriptions d) := by
  have hkind := Schema.kind?_builtin hs (argumentType_mem_builtinScalars d hd)
  refine linksIn_directiveNode (linksIn_describe _ _) (linksIn_arr fun item hm => ?_)
  rw [List.mem_singleton.1 hm]
  refine linksIn_obj rfl fun member hm => ?_
  simp only [List.mem_cons, List.not_mem_nil, or_false] at hm
  rcases hm with rfl | rfl | rfl | rfl
  · exact linksIn_str _
  · exact linksIn_describe _ _
  · exact linksIn_wrapRef _ (linksIn_namedRef ⟨Schema.knows_of_kind? hkind, kindFits_of_kind? hkind⟩)
  · exact linksIn_optional _

/-- **The references of the directives** are to types of the schema, or to what the argument of a declared directive names. -/
theorem linksIn_directives (hs : Schema.ofDocument document = .ok schema) :
    ∀ node ∈ (undeclared schema).map (standardDirectiveNode descriptions)
        ++ schema.directives.values.map (declaredDirectiveNode schema descriptions),
      LinksIn (Sound schema fun name => schema.Knows name ∨ OfDirective schema name) node := by
  intro node hm
  rcases List.mem_append.1 hm with hm | hm
  · obtain ⟨d, hd, rfl⟩ := List.mem_map.1 hm
    have hlinks := linksIn_standardDirectiveNode descriptions hs (List.mem_filter.1 hd).1
    exact hlinks.mono fun name kind h => ⟨Or.inl h.1, h.2⟩
  · obtain ⟨d, hd, rfl⟩ := List.mem_map.1 hm
    refine linksIn_directiveNode (linksIn_describe _ _) (linksIn_inputValueNodes descriptions fun argument ha => ?_)
    exact Or.inr ⟨d, hd, argument, ha, rfl⟩

theorem linksIn_rootNode {P : String → Option Json → Prop} (kind : OperationKind) : LinksIn P (rootNode schema kind) := by
  unfold rootNode
  split
  · refine linksIn_obj rfl fun member hm => ?_
    rw [List.mem_singleton.1 hm]
    exact linksIn_str _
  · exact linksIn_null

/-- a root type that is named is known, and its node carries no kind -/
theorem knows_of_rootNode (hs : Schema.ofDocument document = .ok schema) {kind : OperationKind} {name : String}
    (hn : (rootNode schema kind).get? "name" = some (.str name)) :
    schema.Knows name ∧ (rootNode schema kind).get? "kind" = none := by
  unfold rootNode at hn ⊢
  split at hn
  · rename_i root hroot
    cases hn
    exact ⟨Schema.knows_of_rootName? hs hroot, rfl⟩
  · cases hn

/-- the references in one member of the schema's object -/
theorem linksIn_answer (hs : Schema.ofDocument document = .ok schema) {root part : Json} {place : String}
    (hroot : (answer schema descriptions).get? "__schema" = some root) (hpart : root.get? place = some part) :
    LinksIn (Sound schema fun name => schema.Knows name ∨ place = "directives" ∧ OfDirective schema name) part := by
  cases hroot
  obtain ⟨before, after, hmembers, -⟩ := List.lookup_eq_some_iff.1 hpart
  have hm := List.mem_append_right before (List.mem_cons_self (a := (place, part)) (l := after))
  rw [← hmembers] at hm
  simp only [List.mem_cons, Prod.mk.injEq, List.not_mem_nil, or_false] at hm
  rcases hm with ⟨-, rfl⟩ | ⟨-, rfl⟩ | ⟨-, rfl⟩ | ⟨-, rfl⟩ | ⟨rfl, rfl⟩
  · exact linksIn_rootNode .query
  · exact linksIn_rootNode .mutation
  · exact linksIn_rootNode .subscription
  · refine linksIn_arr fun item hi => ?_
    obtain ⟨type, ht, rfl⟩ := List.mem_map.1 hi
    have hlinks := linksIn_typeObject descriptions hs (List.mem_filter.1 ht).1
    exact hlinks.mono fun name kind h => ⟨Or.inl h.1, h.2⟩
  · refine linksIn_arr fun item hi => ?_
    exact (linksIn_directives descriptions hs item hi).mono fun name kind h =>
      ⟨h.1.imp_right fun hd => ⟨rfl, hd⟩, h.2⟩

/-- **What is referred to.** It is a type of the schema, or else the type of a directive's argument; and where its kind is
known the reference carries it, unless it carries none. -/
theorem sound_of_refers (hs : Schema.ofDocument document = .ok schema) {place name : String} {kind : Option Json}
    (hr : Refers (answer schema descriptions) place name kind) :
    Sound schema (fun name => schema.Knows name ∨ place = "directives" ∧ OfDirective schema name) name kind := by
  cases hr with
  | root hschema hp hroot hn hk =>
    subst hk
    cases hschema
    have sound : ∀ {operation}, (rootNode schema operation).get? "name" = some (.str name) →
        Sound schema (fun name => schema.Knows name ∨ place = "directives" ∧ OfDirective schema name) name
          ((rootNode schema operation).get? "kind") := by
      intro operation hn
      obtain ⟨hknown, hkind⟩ := knows_of_rootNode hs hn
      exact ⟨Or.inl hknown, Or.inl hkind⟩
    simp only [rootMembers, List.mem_cons, List.not_mem_nil, or_false] at hp
    rcases hp with rfl | rfl | rfl
    · cases hroot
      exact sound hn
    · cases hroot
      exact sound hn
    · cases hroot
      exact sound hn
  | link node hschema hp hw hi hn hk =>
    subst hk
    exact linksIn_answer descriptions hs hschema hp node _ name hw hi hn

/-- **The entries of the result** are the types of the schema whose names do not begin with two underscores. -/
theorem lists_answer_iff (hs : Schema.ofDocument document = .ok schema) {name : String} {kind : Json} :
    Lists (answer schema descriptions) name kind ↔
      Text.startsWith "__" name = false ∧ ∃ found, schema.kind? name = some found ∧ kind = .str found.name := by
  constructor
  · rintro ⟨root, types, entry, hroot, htypes, he, hn, hk⟩
    cases hroot
    cases htypes
    obtain ⟨type, hlisted, rfl⟩ := List.mem_map.1 he
    cases hn
    cases hk
    obtain ⟨hv, hmeta⟩ := List.mem_filter.1 hlisted
    refine ⟨by simpa [NamedType.isMeta] using hmeta, type.kind, ?_, rfl⟩
    rw [Schema.kind?, Schema.type?_name hs hv, Option.map_some]
  · rintro ⟨hmeta, found, hf, rfl⟩
    obtain ⟨type, ht, rfl⟩ := Schema.exists_type?_of_kind? hf
    have hname := Schema.name_eq hs ht
    subst hname
    have hlisted : type ∈ listedTypes schema :=
      List.mem_filter.2 ⟨Schema.mem_values_of_type? ht, by simpa [NamedType.isMeta] using hmeta⟩
    exact ⟨_, _, _, rfl, rfl, List.mem_map.2 ⟨type, hlisted, rfl⟩, rfl, rfl⟩

/-- **The result of an introspection query is closed**, but for the names of the introspection system. In the result for an
accepted schema every reference is to a type of the schema, those of directives aside, where an argument may name any type;
a reference to a type of the schema finds an entry exactly when the name does not begin with two underscores; and a
reference that carries a kind and finds an entry carries the kind of that entry. -/
theorem answer_closed (hs : Schema.ofDocument document = .ok schema) {place name : String} {kind : Option Json}
    (hr : Refers (answer schema descriptions) place name kind) :
    (schema.Knows name ∨ place = "directives" ∧ OfDirective schema name) ∧
    (schema.Knows name →
      ((∃ found, Lists (answer schema descriptions) name found) ↔ Text.startsWith "__" name = false)) ∧
    ∀ found, Lists (answer schema descriptions) name found → kind = none ∨ kind = some found := by
  obtain ⟨hknown, hkind⟩ := sound_of_refers descriptions hs hr
  refine ⟨hknown, fun hk => ⟨?_, fun hmeta => ?_⟩, fun found hl => ?_⟩
  · rintro ⟨found, hl⟩
    exact ((lists_answer_iff descriptions hs).1 hl).1
  · obtain ⟨type, ht⟩ := hk
    have hfound : schema.kind? name = some type.kind := congrArg (Option.map NamedType.kind) ht
    exact ⟨_, (lists_answer_iff descriptions hs).2 ⟨hmeta, type.kind, hfound, rfl⟩⟩
  · obtain ⟨-, typeKind, hfound, rfl⟩ := (lists_answer_iff descriptions hs).1 hl
    exact hkind.imp_right fun hfits => hfits typeKind hfound

end Accepted

/-- a list of users, and a version of the introspection system -/
def versionedSchema : SchemaDocument :=
  [.type ⟨none, "Query", [], .object [] [⟨none, "users", [], .list (.nonNull (.named "User")), []⟩,
      Schema.plainField "meta" "__Meta"]⟩,
    .type ⟨none, "User", [], .object [] [Schema.plainField "id" "ID"]⟩,
    .type ⟨none, "__Meta", [], .object [] [Schema.plainField "version" "Int"]⟩]

/-- the query type, and the users at the end of their chain -/
theorem answer_closed_users :
    ∃ schema, Schema.ofDocument versionedSchema = .ok schema ∧
      Refers (answer schema true) "queryType" "Query" none ∧ (∃ found, Lists (answer schema true) "Query" found) ∧
      Refers (answer schema true) "types" "User" (some (.str "OBJECT")) ∧
      Lists (answer schema true) "User" (.str "OBJECT") := by
  obtain ⟨schema, hs, hquery, huser⟩ : ∃ schema, Schema.ofDocument versionedSchema = .ok schema ∧
      Refers (answer schema true) "queryType" "Query" none ∧
      Refers (answer schema true) "types" "User" (some (.str "OBJECT")) := by
    refine ⟨_, rfl, .root rfl List.mem_cons_self rfl rfl rfl, ?_⟩
    refine .link (namedRef .object "User") rfl rfl ?_ rfl rfl rfl
    -- the entry of the query type, its first field, and the type in the list
    refine .item (List.mem_of_getElem? (i := 5) rfl) (.member (List.mem_of_getElem? (i := 3) rfl) ?_)
    refine .item (List.mem_of_getElem? (i := 0) rfl) (.member (List.mem_of_getElem? (i := 3) rfl) ?_)
    exact .member (List.mem_of_getElem? (i := 2) rfl) (.member (List.mem_of_getElem? (i := 2) rfl) .here)
  obtain ⟨hknown, hlisted, -⟩ := answer_closed true hs hquery
  obtain ⟨hknown', hlisted', hkinds⟩ := answer_closed true hs huser
  obtain ⟨found, hfound⟩ := (hlisted' (hknown'.resolve_right nofun)).2 (by decide +kernel)
  rcases hkinds found hfound with hkind | hkind
  · cases hkind
  · cases hkind
    exact ⟨schema, hs, hquery, (hlisted (hknown.resolve_right nofun)).2 (by decide +kernel), huser, hfound⟩

/-- a directive whose argument has a type that nothing declares -/
def limitedSchema : SchemaDocument :=
  [.type ⟨none, "Query", [], .object [] [Schema.plainField "id" "ID"]⟩,
    .directive ⟨none, "cost", [⟨none, "limit", .named "Limit", none, []⟩], false, [.fieldDefinition]⟩]

/-- **The result is not closed** at such names: the version's type is referred to and has no entry. Neither is it where an argument
of a directive has a type that the schema does not have: that has none either. -/
theorem answer_open :
    (∃ schema, Schema.ofDocument versionedSchema = .ok schema ∧
      ∀ descriptions, Refers (answer schema descriptions) "types" "__Meta" (some (.str "OBJECT")) ∧
        ∀ found, ¬ Lists (answer schema descriptions) "__Meta" found) ∧
    ∃ schema, Schema.ofDocument limitedSchema = .ok schema ∧ ¬ schema.Knows "Limit" ∧
      ∀ descriptions, Refers (answer schema descriptions) "directives" "Limit" (some (.str "SCALAR")) ∧
        ∀ found, ¬ Lists (answer schema descriptions) "Limit" found := by
  constructor
  · refine ⟨_, rfl, fun descriptions => ⟨.link (namedRef .object "__Meta") rfl rfl ?_ rfl rfl rfl, fun found hl => ?_⟩⟩
    · refine .item (List.mem_of_getElem? (i := 5) rfl) (.member (List.mem_of_getElem? (i := 3) rfl) ?_)
      exact .item (List.mem_of_getElem? (i := 1) rfl) (.member (List.mem_of_getElem? (i := 3) rfl) .here)
    · have hs : Schema.ofDocument versionedSchema = .ok _ := rfl
      obtain ⟨hmeta, -⟩ := (lists_answer_iff descriptions hs).1 hl
      have hname : Text.startsWith "__" "__Meta" = true := by decide +kernel
      exact absurd (hname.symm.trans hmeta) nofun
  · have hs : Schema.ofDocument limitedSchema = .ok _ := rfl
    refine ⟨_, hs, fun ⟨_, ht⟩ => ?_, fun descriptions => ⟨.link (namedRef .scalar "Limit") rfl rfl ?_ rfl rfl rfl,
      fun found hl => ?_⟩⟩
    · cases ht
    · -- behind the directives that every schema knows, the type of the argument
      refine .item (List.mem_of_getElem? (i := 3) rfl) (.member (List.mem_of_getElem? (i := 3) rfl) ?_)
      exact .item (List.mem_of_getElem? (i := 0) rfl) (.member (List.mem_of_getElem? (i := 2) rfl) .here)
    · obtain ⟨-, _, hkind, -⟩ := (lists_answer_iff descriptions hs).1 hl
      cases hkind

end Introspection

end GraphGen

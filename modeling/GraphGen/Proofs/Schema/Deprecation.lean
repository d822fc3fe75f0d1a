/-
What becomes of the reason of a deprecation.

A reason is indexed by way of its written form: the argument of the directive is written with its escapes, and of these only
those of quotes are undone when the quotes around it are taken off (`bareText_quoted`). So a reason survives exactly when it has
printable characters only and no backslash; any other character is left in its written form (`writtenReason`), which
introspection results and comments then show.

Main result:
- `reasons_survive_iff`: for every field and enum value of an accepted schema.

A backslash is doubled (`backslash_doubled`).
-/
import GraphGen.Proofs.Schema.Declared
import GraphGen.Proofs.Text.Quoting
import GraphGen.Proofs.Text.Replacing
import GraphGen.Targets.Introspection
import GraphGen.Targets.TypeScriptTypes

namespace GraphGen

/-! ## Reasons in written form -/

/-- the written form of a character in a reason, where quotes are plain again -/
def reasonChar (c : Char) : List Char :=
  if c = '"' then ['"'] else Text.escape c

/-- the reason with its characters in written form -/
def writtenReason (reason : String) : String :=
  String.ofList (reason.toList.flatMap reasonChar)

namespace Text

/-- nothing is undone where there is no quote -/
theorem replaceFrom_of_no_quote {block rest : List Char} (hb : '"' ∉ block) (hr : rest.head? ≠ some '"') :
    replaceFrom ['\\', '"'] ['"'] 0 (block ++ rest) = block ++ replaceFrom ['\\', '"'] ['"'] 0 rest := by
  induction block with
  | nil => rfl
  | cons c block ih =>
    have hhead : (block ++ rest).head? ≠ some '"' := by
      cases block with
      | nil => exact hr
      | cons d block =>
        rw [List.cons_append, List.head?_cons]
        exact fun he => hb (by simp [Option.some.inj he])
    rw [List.cons_append, replaceFrom_pair_cons, if_neg fun h => hhead h.2, ih fun hm => hb (List.mem_cons_of_mem _ hm)]
    rfl

/-- **Only the escapes of quotes are undone.** -/
theorem replaceFrom_flatMap_escape (cs : List Char) :
    replaceFrom ['\\', '"'] ['"'] 0 (cs.flatMap escape) = cs.flatMap reasonChar := by
  induction cs with
  | nil => rfl
  | cons c cs ih =>
    rw [List.flatMap_cons, List.flatMap_cons, ← ih, reasonChar]
    by_cases hc : c = '"'
    · subst hc
      rw [if_pos rfl]
      show replaceFrom _ _ 0 ('\\' :: '"' :: cs.flatMap escape) = _
      rw [replaceFrom_pair_cons, if_pos ⟨rfl, rfl⟩]
      rfl
    · rw [if_neg hc]
      exact replaceFrom_of_no_quote (fun hm => not_quote_of_mem_escape hc hm rfl) (head?_flatMap_escape cs)

end Text

theorem bareText_quoted (reason : String) : bareText (Text.quoted reason) = writtenReason reason := by
  unfold bareText Text.quoted Text.replace writtenReason
  simp only [String.toList_ofList, List.cons_append, List.getLast?_append, List.getLast?_singleton, Option.some_or,
    if_true, List.dropLast_concat]
  rw [← Text.replaceFrom_flatMap_escape]
  rfl

/-- a character stands as it is when it is printable and no backslash -/
theorem reasonChar_eq_iff (c : Char) : reasonChar c = [c] ↔ Text.isPrintable c = true ∧ c ≠ '\\' := by
  unfold reasonChar
  by_cases hc : c = '"'
  · subst hc
    decide
  rw [if_neg hc]
  rcases Text.written c with ⟨mark, hknown, hw⟩ | ⟨hp, -, hb, hw⟩ | ⟨hp, -, hw⟩ <;> rw [hw]
  · have hshort : ∀ entry ∈ Text.shortEscapes, entry.1 ≠ '"' →
        ¬ (Text.isPrintable entry.1 = true ∧ entry.1 ≠ '\\') := by decide
    exact iff_of_false (by simp) (hshort _ hknown hc)
  · exact iff_of_true rfl ⟨hp, hb⟩
  · exact iff_of_false (by simp) (by simp [hp])

theorem reasonChar_length (c : Char) : reasonChar c = [c] ∨ 2 ≤ (reasonChar c).length := by
  unfold reasonChar
  by_cases hc : c = '"'
  · exact .inl (by rw [if_pos hc, hc])
  rw [if_neg hc]
  rcases Text.written c with ⟨mark, -, hw⟩ | ⟨-, -, -, hw⟩ | ⟨-, -, hw⟩
  · exact .inr (by simp [hw])
  · exact .inl hw
  · exact .inr (by simp [hw])

/-- **A reason is its written form when it is printable and has no backslash.** -/
theorem writtenReason_eq_iff (reason : String) :
    writtenReason reason = reason ↔ ∀ c ∈ reason.toList, Text.isPrintable c = true ∧ c ≠ '\\' := by
  rw [writtenReason, ← String.toList_inj, String.toList_ofList, Text.flatMap_eq_self_iff reasonChar_length]
  exact forall₂_congr fun c _ => reasonChar_eq_iff c

/-! ## Indexed reasons -/

/-- the value that the first deprecation among applied directives gives as its reason -/
def Directive.deprecationReason? (directives : List Directive) : Option Value :=
  (directives.find? (·.name = "deprecated")).bind (·.arguments.lookup "reason")

theorem lookup_map_value {α β : Type} (f : α → β) (entries : List (String × α)) (key : String) :
    (entries.map fun (name, value) => (name, f value)).lookup key = (entries.lookup key).map f := by
  induction entries with
  | nil => rfl
  | cons entry rest ih =>
    obtain ⟨name, value⟩ := entry
    rw [List.map_cons, lookup_cons_ite, lookup_cons_ite, ih]
    split <;> rfl

/-- **The reason that is indexed is the written one.** -/
theorem Deprecation.ofUses_of_reason {directives : List Directive} {reason : String}
    (h : Directive.deprecationReason? directives = some (.string reason)) :
    Deprecation.ofUses (directives.map .ofDirective) = some ⟨some (writtenReason reason)⟩ := by
  obtain ⟨d, hd, hreason⟩ := Option.bind_eq_some_iff.1 h
  have hfound : (directives.map AppliedDirective.ofDirective).find? (·.name = "deprecated") =
      some (AppliedDirective.ofDirective d) := by
    rw [List.find?_map]
    exact Option.map_eq_some_iff.2 ⟨d, hd, rfl⟩
  have hargument : (AppliedDirective.ofDirective d).argument? "reason" = some (Text.quoted reason) := by
    rw [AppliedDirective.argument?, AppliedDirective.ofDirective, lookup_map_value, hreason]
    rfl
  rw [ofUses, hfound, Option.map_some, hargument, Option.map_some, bareText_quoted]

/-- a deprecation is indexed with this reason, and the introspection result and the comments of types show it -/
structure ReasonIndexed (deprecation : Option Deprecation) (node : Bool → Json) (reason : String) : Prop where
  indexed : deprecation = some ⟨some reason⟩
  listed : ∀ descriptions, (node descriptions).get? "deprecationReason" = some (.str reason)
  commented : ∀ description, ∃ before,
    TypeScriptTypes.commentText description deprecation = before ++ "@deprecated " ++ reason

theorem reasonIndexed_of {deprecation : Option Deprecation} {node : Bool → Json} {directives : List Directive}
    {reason : String} (hd : deprecation = Deprecation.ofUses (directives.map .ofDirective))
    (hn : ∀ descriptions, (node descriptions).get? "deprecationReason" = some (.optional (deprecation.map Deprecation.text)))
    (h : Directive.deprecationReason? directives = some (.string reason)) :
    ReasonIndexed deprecation node (writtenReason reason) := by
  have hindexed := hd.trans (Deprecation.ofUses_of_reason h)
  refine ⟨hindexed, fun descriptions => ?_, fun description => ?_⟩
  · rw [hn, hindexed]
    rfl
  · rw [hindexed]
    exact ⟨_, rfl⟩

/-- **Reasons survive when they are printable and have no backslash.** Every field and every enum value of an accepted schema is
that of a declaration of its type. Where the first deprecation of the declaration gives a string as its reason, the reason that
is indexed, and shown by introspection results and comments, is its written form; and this is the string itself exactly when all
its characters are printable and none is a backslash. -/
theorem reasons_survive_iff {document : SchemaDocument} {schema : Schema} (hs : Schema.ofDocument document = .ok schema)
    {name : String} {type : NamedType} (ht : schema.type? name = some type) :
    (∀ key field, type.fields.get? key = some field →
      ∃ d ∈ TypePart.fields.among document.typeDeclarations name, d.name = key ∧ field = .ofDeclaration d ∧
        ∀ reason, Directive.deprecationReason? d.directives = some (.string reason) →
          ReasonIndexed field.deprecation (Introspection.fieldNode schema · field) (writtenReason reason)) ∧
    (∀ value ∈ type.enumValues,
      ∃ d ∈ TypePart.enumValues.among document.typeDeclarations name, value = .ofDeclaration d ∧
        ∀ reason, Directive.deprecationReason? d.directives = some (.string reason) →
          ReasonIndexed value.deprecation (Introspection.enumValueNode · value) (writtenReason reason)) ∧
    ∀ reason, writtenReason reason = reason ↔ ∀ c ∈ reason.toList, Text.isPrintable c = true ∧ c ≠ '\\' := by
  refine ⟨fun key field hf => ?_, fun value hv => ?_, writtenReason_eq_iff⟩
  · obtain ⟨d, hd, hname, rfl⟩ := Schema.field_declared hs ht hf
    exact ⟨d, hd, hname, rfl, fun _ => reasonIndexed_of rfl fun _ => rfl⟩
  · obtain ⟨d, hd, rfl⟩ := Schema.enumValue_declared hs ht hv
    exact ⟨d, hd, rfl, fun _ => reasonIndexed_of rfl fun _ => rfl⟩

/-- a field whose deprecation has quotes in its reason, after another directive with an argument of that name -/
def nickDeclaration : FieldDeclaration :=
  ⟨none, "nick", [], .named "String",
    [⟨"internal", [("reason", .null)]⟩, ⟨"deprecated", [("reason", .string "use \"name\"")]⟩]⟩

/-- an enum value whose deprecation has a backslash in its reason -/
def rootDeclaration : EnumValueDeclaration :=
  ⟨none, "ROOT", [⟨"deprecated", [("reason", .string "a\\b")]⟩]⟩

/-- a user with the field, and a role with the value -/
def deprecatedSchema : SchemaDocument :=
  [.type ⟨none, "User", [], .object [] [nickDeclaration]⟩, .type ⟨none, "Role", [], .enum [rootDeclaration]⟩]

theorem reasons_survive_iff_nick :
    ∃ schema user field, Schema.ofDocument deprecatedSchema = .ok schema ∧ schema.type? "User" = some user ∧
      user.fields.get? "nick" = some field ∧
      ReasonIndexed field.deprecation (Introspection.fieldNode schema · field) "use \"name\"" := by
  refine ⟨_, _, _, rfl, rfl, rfl, ?_⟩
  obtain ⟨hfields, -, hsurvive⟩ := @reasons_survive_iff deprecatedSchema _ rfl "User" _ rfl
  obtain ⟨d, hd, -, -, hreasons⟩ := hfields "nick" _ rfl
  cases List.mem_singleton.1 (show d ∈ [nickDeclaration] from hd)
  have hkept := (hsurvive "use \"name\"").2 (List.forall_iff_forall_mem.1 (by decide +kernel))
  exact hkept ▸ hreasons "use \"name\"" rfl

/-- **A backslash in a reason is doubled** when it is indexed, and so it is shown -/
theorem backslash_doubled :
    ∃ schema role value, Schema.ofDocument deprecatedSchema = .ok schema ∧ schema.type? "Role" = some role ∧
      role.enumValues = [value] ∧ value = .ofDeclaration rootDeclaration ∧
      Directive.deprecationReason? rootDeclaration.directives = some (.string "a\\b") ∧
      value.deprecation = some ⟨some "a\\\\b"⟩ ∧ value.deprecation ≠ some ⟨some "a\\b"⟩ ∧
      (Introspection.enumValueNode true value).get? "deprecationReason" = some (.str "a\\\\b") := by
  have hindexed : (EnumValue.ofDeclaration rootDeclaration).deprecation = some ⟨some "a\\\\b"⟩ := by decide +kernel
  refine ⟨_, _, _, rfl, rfl, rfl, rfl, rfl, hindexed, by decide +kernel, ?_⟩
  exact congrArg (fun deprecation : Option Deprecation => some (Json.optional (deprecation.map Deprecation.text))) hindexed

end GraphGen

/-
A type reference is the same in all its forms.

A type is read as an expression, kept as a name under wrappers, written with brackets and exclamation marks, and shown by an
introspection result as a chain of nodes. An expression that puts no non-null mark directly on another one
(`TypeExpr.MarkedOnce`) is the same in all of them, by induction on the expression. A mark is where they differ: in the
wrappers it changes the outermost flag (`requireOuter`), in the other forms it comes around the whole type. On a type that was
nullable before, both are the same:
- `wrap_requireOuter`, `wrapRef_requireOuter`: the text and the chain of the type get a mark around them;
- `eq_of_requireOuter`: the type that was marked can be read off.

A chain is given by its nodes alone (`chainOf`): wrappers have a kind and no name, the named type at the end has both.

Main results:
- `readChain_render`: a reader of the text who takes off an exclamation mark at the end, or else brackets at both ends, finds
  one node for every wrapper of the expression.
- `typeReference_forms`: the forms of a type reference agree.
-/
import GraphGen.Proofs.Dialect.Wrapping
import GraphGen.Schema.Build
import GraphGen.Targets.Introspection

namespace GraphGen

/-! ## Type expressions -/

namespace TypeExpr

/-- no non-null mark stands directly on another one -/
def MarkedOnce : TypeExpr → Prop
  | named _ => True
  | list item => item.MarkedOnce
  | nonNull (nonNull _) => False
  | nonNull inner => inner.MarkedOnce

/-- the kinds of the wrappers around the named type, outermost first -/
def wrapperKinds : TypeExpr → List String
  | named _ => []
  | list item => "LIST" :: item.wrapperKinds
  | nonNull inner => "NON_NULL" :: inner.wrapperKinds

/-- a mark stands on a nullable type, that is marked once itself -/
theorem MarkedOnce.inner {inner : TypeExpr} (h : (nonNull inner).MarkedOnce) :
    inner.MarkedOnce ∧ (WrappedType.ofExpr inner).wrapping.isNullable = true := by
  cases inner with
  | named name => exact ⟨trivial, rfl⟩
  | list item => exact ⟨h, by simp [WrappedType.ofExpr]⟩
  | nonNull inner => exact h.elim

end TypeExpr

/-! ## Wrappers of an expression -/

namespace Wrapping

@[simp] theorem isNullable_requireOuter (w : Wrapping) : w.requireOuter.isNullable = false := by
  cases w using inListRec with
  | named required => simp
  | list inner required => simp

/-- the text of a nullable type that becomes required gets the mark of required types, if nullable types have none -/
theorem wrap_requireOuter {w : Wrapping} (hw : w.isNullable = true) {encoder : Encoder}
    (hn : ∀ type, encoder.nullable type = type) (base : String) :
    w.requireOuter.wrap base encoder = encoder.required (w.wrap base encoder) := by
  cases w using inListRec with
  | named required =>
    obtain rfl : required = false := by simpa using hw
    simp [wrap, mark, hn]
  | list inner required =>
    obtain rfl : required = false := by simpa using hw
    simp [wrap_inList, mark, hn]

end Wrapping

namespace WrappedType

@[simp] theorem name_ofExpr (expr : TypeExpr) : (ofExpr expr).name = expr.base := by
  induction expr with
  | named name => rfl
  | list item ih => exact ih
  | nonNull inner ih => exact ih

/-- **The reference is written as the expression is.** -/
theorem render_ofExpr {expr : TypeExpr} (h : expr.MarkedOnce) : (ofExpr expr).render = expr.render := by
  have htext : ∀ expr : TypeExpr, (ofExpr expr).render = (ofExpr expr).wrapping.wrap expr.base sdlEncoder := by
    intro expr
    rw [render, wrap, name_ofExpr]
  induction expr with
  | named name => rfl
  | list item ih =>
    have hitem := ih h
    rw [htext] at hitem
    rw [htext, ofExpr, Wrapping.wrap_inList, TypeExpr.base, hitem]
    rfl
  | nonNull inner ih =>
    obtain ⟨honce, hnullable⟩ := h.inner
    have hinner := ih honce
    rw [htext] at hinner
    rw [htext, ofExpr, Wrapping.wrap_requireOuter hnullable fun _ => rfl, TypeExpr.base, hinner]
    rfl

/-- **Different expressions have different references.** -/
theorem ofExpr_injective {expr other : TypeExpr} (h : expr.MarkedOnce) (h' : other.MarkedOnce)
    (he : ofExpr expr = ofExpr other) : expr = other := by
  induction expr generalizing other with
  | named name =>
    cases other with
    | named name' => simpa [ofExpr] using he
    | list item' => simp [ofExpr, Wrapping.nullable] at he
    | nonNull inner' => exact absurd (congrArg isNullable he) (by simp [isNullable, ofExpr, Wrapping.nullable])
  | list item ih =>
    cases other with
    | named name' => exact absurd he.symm (by simp [ofExpr, Wrapping.nullable])
    | list item' =>
      obtain ⟨hname, hwrapping⟩ := WrappedType.mk.inj he
      rw [Wrapping.inList_inj] at hwrapping
      have hitem : item = item' := ih h h' (congrArg₂ WrappedType.mk hname hwrapping.1)
      rw [hitem]
    | nonNull inner' => exact absurd (congrArg isNullable he) (by simp [isNullable, ofExpr])
  | nonNull inner ih =>
    cases other with
    | named name' => exact absurd (congrArg isNullable he) (by simp [isNullable, ofExpr, Wrapping.nullable])
    | list item' => exact absurd (congrArg isNullable he) (by simp [isNullable, ofExpr])
    | nonNull inner' =>
      obtain ⟨honce, hinner⟩ := h.inner
      obtain ⟨honce', hinner'⟩ := h'.inner
      obtain ⟨hname, hwrapping⟩ := WrappedType.mk.inj he
      have hsame : inner = inner' :=
        ih honce honce' (congrArg₂ WrappedType.mk hname (Wrapping.eq_of_requireOuter hinner hinner' hwrapping))
      rw [hsame]

end WrappedType

/-! ## Chains -/

namespace Introspection

/-- the node at the end of a chain: a named type with the kind that the schema has for it, an unknown one as a scalar -/
def endNode (schema : Schema) (name : String) : Json :=
  let kind := match schema.kind? name with
    | some .object => "OBJECT"
    | some .interface => "INTERFACE"
    | some .union => "UNION"
    | some .enum => "ENUM"
    | some .inputObject => "INPUT_OBJECT"
    | some .scalar | none => "SCALAR"
  .obj [("kind", .str kind), ("name", .str name), ("ofType", .null)]

/-- a chain of nodes without a name, one for each of these kinds, outermost first, with that of a named type at its end -/
def chainOf (schema : Schema) : List String → String → Json
  | [], name => endNode schema name
  | kind :: inner, name => .obj [("kind", .str kind), ("name", .null), ("ofType", chainOf schema inner name)]

theorem namedRef_eq (schema : Schema) (name : String) :
    namedRef ((schema.kind? name).getD .scalar) name = endNode schema name := by
  unfold endNode
  cases schema.kind? name with
  | none => rfl
  | some kind => cases kind <;> rfl

/-- a wrapper around a chain makes it longer by a node -/
theorem wrapperRef_chainOf (schema : Schema) (kind : String) (inner : List String) (name : String) :
    wrapperRef kind (chainOf schema inner name) = chainOf schema (kind :: inner) name := rfl

theorem wrapRef_inList (w : Wrapping) (required : Bool) (named : Json) :
    wrapRef (w.inList required) named = markRequired required (wrapperRef "LIST" (wrapRef w named)) := by
  simp [wrapRef, Wrapping.inList]

theorem wrapRef_requireOuter {w : Wrapping} (hw : w.isNullable = true) (named : Json) :
    wrapRef w.requireOuter named = wrapperRef "NON_NULL" (wrapRef w named) := by
  cases w using Wrapping.inListRec with
  | named required =>
    obtain rfl : required = false := by simpa using hw
    rfl
  | list inner required =>
    obtain rfl : required = false := by simpa using hw
    simp [wrapRef_inList, markRequired]

/-- **The chain of a reference has one node for every wrapper of its expression.** -/
theorem typeChain_ofExpr (schema : Schema) {expr : TypeExpr} (h : expr.MarkedOnce) :
    typeChain schema (WrappedType.ofExpr expr) = chainOf schema expr.wrapperKinds expr.base := by
  rw [typeChain, WrappedType.name_ofExpr, namedRef_eq]
  induction expr with
  | named name => rfl
  | list item ih =>
    rw [WrappedType.ofExpr, wrapRef_inList, TypeExpr.base, ih h]
    rfl
  | nonNull inner ih =>
    obtain ⟨honce, hnullable⟩ := h.inner
    rw [WrappedType.ofExpr, wrapRef_requireOuter hnullable, TypeExpr.base, ih honce, wrapperRef_chainOf]
    rfl

/-! ## Reading the text of a reference -/

/-- the chain that a reader of the text finds, from the outside: an exclamation mark at the end is a non-null mark, brackets
at both ends are a list, and any other text is the name of a type -/
def readChain (schema : Schema) (text : List Char) : Json :=
  if _required : text.getLast? = some '!' then
    .obj [("kind", .str "NON_NULL"), ("name", .null), ("ofType", readChain schema text.dropLast)]
  else if _list : text.head? = some '[' ∧ text.getLast? = some ']' then
    .obj [("kind", .str "LIST"), ("name", .null), ("ofType", readChain schema text.tail.dropLast)]
  else endNode schema (String.ofList text)
termination_by text.length
decreasing_by
  · have hne : text ≠ [] := by
      rintro rfl
      cases _required
    have := List.length_pos_iff.2 hne
    simp only [List.length_dropLast]
    omega
  · have hne : text ≠ [] := by
      rintro rfl
      cases _list.1
    have := List.length_pos_iff.2 hne
    simp only [List.length_dropLast, List.length_tail]
    omega

theorem readChain_required (schema : Schema) (text : List Char) :
    readChain schema (text ++ ['!']) =
      .obj [("kind", .str "NON_NULL"), ("name", .null), ("ofType", readChain schema text)] := by
  rw [readChain]
  simp

theorem readChain_list (schema : Schema) (text : List Char) :
    readChain schema ('[' :: text ++ [']']) =
      .obj [("kind", .str "LIST"), ("name", .null), ("ofType", readChain schema text)] := by
  have hlast : ('[' :: text ++ [']']).getLast? = some ']' := List.getLast?_concat
  have hinner : ('[' :: text ++ [']']).tail.dropLast = text := List.dropLast_concat
  have hmark : ('[' :: text ++ [']']).getLast? ≠ some '!' := fun he => absurd (hlast.symm.trans he) (by decide)
  rw [readChain, dif_neg hmark, dif_pos ⟨rfl, hlast⟩, hinner]

/-- a name has neither marks nor brackets -/
theorem readChain_name (schema : Schema) {name : String} (h : Token.isName name = true) :
    readChain schema name.toList = endNode schema name := by
  have hmark : name.toList.getLast? ≠ some '!' := by
    intro hlast
    have hc := isNameRest_of_mem h (List.mem_of_getLast? hlast)
    exact absurd hc (by decide)
  have hbracket : name.toList.head? ≠ some '[' := by
    intro hfirst
    have hc := isNameRest_of_mem h (List.mem_of_head? hfirst)
    exact absurd hc (by decide)
  rw [readChain, dif_neg hmark, dif_neg fun hlist => hbracket hlist.1, String.ofList_toList]

/-- **A reader of the text finds one node for every wrapper.** -/
theorem readChain_render (schema : Schema) {expr : TypeExpr} (hn : Token.isName expr.base = true) :
    readChain schema expr.render.toList = chainOf schema expr.wrapperKinds expr.base := by
  induction expr with
  | named name => exact readChain_name schema hn
  | list item ih =>
    have htext : (TypeExpr.list item).render.toList = '[' :: item.render.toList ++ [']'] := by
      simp [TypeExpr.render]
    rw [htext, readChain_list, ih hn]
    rfl
  | nonNull inner ih =>
    have htext : (TypeExpr.nonNull inner).render.toList = inner.render.toList ++ ['!'] := by
      simp [TypeExpr.render]
    rw [htext, readChain_required, ih hn]
    rfl

end Introspection

open Introspection

/-- **The forms of a type reference agree.** Let an expression mark no type twice, around a name of the syntax. Its reference is
written as the expression is; no other such expression has this reference; and whether the chain of an introspection result is
made from the wrappers or read off the text, it has one node for every wrapper of the expression, outermost first, around the
named type with the kind that the schema has for it. -/
theorem typeReference_forms {expr : TypeExpr} (h : expr.MarkedOnce) (hn : Token.isName expr.base = true)
    (schema : Schema) :
    (WrappedType.ofExpr expr).render = expr.render ∧
    (∀ other : TypeExpr, other.MarkedOnce → WrappedType.ofExpr other = WrappedType.ofExpr expr → other = expr) ∧
    typeChain schema (WrappedType.ofExpr expr) = chainOf schema expr.wrapperKinds expr.base ∧
    readChain schema (WrappedType.ofExpr expr).render.toList = chainOf schema expr.wrapperKinds expr.base := by
  have hrender := WrappedType.render_ofExpr h
  refine ⟨hrender, fun other h' he => WrappedType.ofExpr_injective h' h he, typeChain_ofExpr schema h, ?_⟩
  rw [hrender]
  exact readChain_render schema hn

/-- a required list of nullable lists of required names -/
def rowsExpr : TypeExpr :=
  .nonNull (.list (.list (.nonNull (.named "User"))))

/-- a schema with the named type of the rows -/
def rowsSchema : SchemaDocument :=
  [.type ⟨none, "User", [], .object [] [⟨none, "id", [], .nonNull (.named "ID"), []⟩]⟩]

theorem typeReference_forms_rows :
    ∃ schema, Schema.ofDocument rowsSchema = .ok schema ∧ schema.kind? "User" = some .object ∧
      (WrappedType.ofExpr rowsExpr).render = "[[User!]]!" ∧
      WrappedType.ofExpr rowsExpr = ⟨"User", ⟨true, [false, true]⟩⟩ ∧
      typeChain schema (WrappedType.ofExpr rowsExpr) =
        .obj [("kind", .str "NON_NULL"), ("name", .null), ("ofType",
          .obj [("kind", .str "LIST"), ("name", .null), ("ofType",
            .obj [("kind", .str "LIST"), ("name", .null), ("ofType",
              .obj [("kind", .str "NON_NULL"), ("name", .null), ("ofType",
                .obj [("kind", .str "OBJECT"), ("name", .str "User"), ("ofType", .null)])])])])] := by
  refine ⟨_, rfl, rfl, ?_⟩
  obtain ⟨hrender, -, hchain, -⟩ := @typeReference_forms rowsExpr trivial (by decide) _
  exact ⟨hrender, rfl, hchain⟩

end GraphGen

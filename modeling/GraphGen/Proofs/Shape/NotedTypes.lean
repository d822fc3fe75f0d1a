/-
The types that resolving notes.

Resolving keeps a list of the types that got a shape. It is what a target looks up afterwards to declare the schema types that
its picks refer to, so that a type must not be missing from it, not even when other selections failed before.

- `Resolve.Appends`: an action leaves the noted types in front and notes none twice, whether it succeeds or fails. Every action
  that makes shapes does (`appends_shapesUpTo`).
- `noted_of_shapesUpTo`: when there are shapes, the types of all of them are noted, at every depth.
- `TypeTerm.rename`: the types of picks and look-ups under other names. The term of shapes is that of the schema types'
  own names, renamed (`rename_unionTerm`), so that a reference can be told apart from the name that it is written with.
- `ShapeContext.history`: what calls give one after the other, with the types that are noted by then.

Main result:
- `noted_cover_references`: over any calls, the noted types are distinct and only grow at the end, and those after a call that
  succeeds hold every schema type that its text refers to.
-/
import GraphGen.Proofs.Shape.Terms

namespace GraphGen

open ShapeContext

/-! ## Actions that only append -/

namespace Resolve

variable {α β : Type}

theorem run_ofExcept (outcome : Except Error α) (noted : List String) :
    runResolve (ofExcept outcome) noted = (outcome, noted) := by
  cases outcome <;> rfl

/-- two steps succeed when both do, the second from what the first has noted -/
theorem run_bind_eq_ok_iff {action : Resolve α} {next : α → Resolve β} {noted after : List String} {result : β} :
    runResolve (action >>= next) noted = (.ok result, after) ↔
      ∃ value between, runResolve action noted = (.ok value, between) ∧
        runResolve (next value) between = (.ok result, after) := by
  rw [run_bind]
  rcases runResolve action noted with ⟨_ | value, between⟩
  · constructor
    · intro h
      cases h
    · rintro ⟨_, _, h, -⟩
      cases h
  · constructor
    · exact fun h => ⟨value, between, rfl, h⟩
    · rintro ⟨_, _, ⟨⟩, h⟩
      exact h

/-- the types noted before stay in front, and none is noted twice -/
structure Appends (action : Resolve α) : Prop where
  grows : ∀ noted, noted <+: (runResolve action noted).2
  nodup : ∀ noted, noted.Nodup → (runResolve action noted).2.Nodup

/-- an action that notes nothing -/
theorem Appends.of_silent {action : Resolve α} (h : ∀ noted, (runResolve action noted).2 = noted) : action.Appends where
  grows noted := (h noted).symm ▸ List.prefix_refl noted
  nodup noted hn := (h noted).symm ▸ hn

theorem appends_pure (value : α) : (pure value : Resolve α).Appends := .of_silent fun _ => rfl

theorem appends_ofExcept (outcome : Except Error α) : (ofExcept outcome).Appends :=
  .of_silent fun noted => by rw [run_ofExcept]

theorem Appends.bind {action : Resolve α} {next : α → Resolve β} (ha : action.Appends) (hn : ∀ value, (next value).Appends) :
    (action >>= next).Appends where
  grows noted := by
    have hgrows := ha.grows noted
    rw [run_bind]
    rcases hr : runResolve action noted with ⟨_ | value, between⟩ <;> rw [hr] at hgrows
    · exact hgrows
    · exact hgrows.trans ((hn value).grows between)
  nodup noted hnoted := by
    have hnodup := ha.nodup noted hnoted
    rw [run_bind]
    rcases hr : runResolve action noted with ⟨_ | value, between⟩ <;> rw [hr] at hnodup
    · exact hnodup
    · exact (hn value).nodup between hnodup

theorem appends_mapM {f : α → Resolve β} (h : ∀ x, (f x).Appends) (l : List α) : (l.mapM f).Appends := by
  induction l with
  | nil => exact appends_pure _
  | cons x l ih =>
    rw [List.mapM_cons]
    exact (h x).bind fun _ => ih.bind fun _ => appends_pure _

/-- **Every value of a traversal** comes from a run on an element, and what was noted by then stays noted. -/
theorem exists_run_of_mem_mapM {f : α → Resolve β} (hf : ∀ x, (f x).Appends) {l : List α} {noted after : List String}
    {values : List β} (h : runResolve (l.mapM f) noted = (.ok values, after)) {value : β} (hv : value ∈ values) :
    ∃ x ∈ l, ∃ before between, runResolve (f x) before = (.ok value, between) ∧ between ⊆ after := by
  induction l generalizing noted values with
  | nil =>
    cases h
    cases hv
  | cons x l ih =>
    rw [List.mapM_cons] at h
    obtain ⟨first, between, hx, h⟩ := run_bind_eq_ok_iff.1 h
    obtain ⟨rest, last, hl, h⟩ := run_bind_eq_ok_iff.1 h
    cases h
    rcases List.mem_cons.1 hv with rfl | hv
    · have hgrows := (appends_mapM hf l).grows between
      rw [hl] at hgrows
      exact ⟨x, List.mem_cons_self, noted, between, hx, hgrows.subset⟩
    · obtain ⟨y, hy, hrun⟩ := ih hl hv
      exact ⟨y, List.mem_cons_of_mem _ hy, hrun⟩

end Resolve

namespace ShapeContext

open Resolve

variable {ctx : ShapeContext}

theorem mem_run_note (concrete : String) (noted : List String) : concrete ∈ (runResolve (note concrete) noted).2 := by
  show concrete ∈ if noted.contains concrete then noted else noted ++ [concrete]
  split
  · rename_i h
    exact List.contains_iff_mem.1 h
  · exact List.mem_append_right _ (List.mem_singleton.2 rfl)

theorem appends_note (concrete : String) : (note concrete).Appends where
  grows noted := by
    show noted <+: if noted.contains concrete then noted else noted ++ [concrete]
    split
    · exact List.prefix_refl noted
    · exact List.prefix_append noted [concrete]
  nodup noted hn := by
    show (if noted.contains concrete then noted else noted ++ [concrete]).Nodup
    split
    · exact hn
    · rename_i h
      have hfresh : concrete ∉ noted := fun hm => h (List.contains_iff_mem.2 hm)
      exact List.nodup_append.2 ⟨hn, List.nodup_singleton _, fun _ hx _ hy heq =>
        hfresh (List.mem_singleton.1 hy ▸ heq ▸ hx)⟩

theorem appends_fieldOf {descend : String → List TaggedSet → Resolve (List TypeShape)}
    (h : ∀ parent sets, (descend parent sets).Appends) (concrete key : String) (slot : Slot) :
    (ctx.fieldOf descend concrete key slot).Appends := by
  unfold fieldOf
  split
  · exact appends_pure _
  · exact appends_pure _
  · exact (h _ _).bind fun _ => appends_pure _

theorem appends_shapeOn {descend : String → List TaggedSet → Resolve (List TypeShape)}
    (h : ∀ parent sets, (descend parent sets).Appends) (sets : List TaggedSet) (concrete : String) :
    (ctx.shapeOn descend sets concrete).Appends := by
  unfold shapeOn
  refine (appends_note concrete).bind fun _ => (appends_ofExcept _).bind fun collected => ?_
  exact (appends_mapM (fun ⟨key, slot⟩ => appends_fieldOf h concrete key slot) _).bind fun _ => appends_pure _

/-- **Resolving only appends,** also when it fails. -/
theorem appends_shapesUpTo (fuel : Nat) (parent : String) (sets : List TaggedSet) :
    (ctx.shapesUpTo fuel parent sets).Appends := by
  induction fuel generalizing parent sets with
  | zero => exact .of_silent fun _ => rfl
  | succ fuel ih =>
    rw [shapesUpTo]
    exact (appends_ofExcept _).bind fun _ => appends_mapM (appends_shapeOn ih sets) _

/-! ## The types of shapes are noted -/

/-- a run that gives the field of a link has given the shapes of its selections -/
theorem exists_run_of_link {descend : String → List TaggedSet → Resolve (List TypeShape)} {concrete entryKey : String}
    {slot : Slot} {noted after : List String} {key : String} {field : Field} {shapes : List TypeShape}
    (h : runResolve (ctx.fieldOf descend concrete entryKey slot) noted = (.ok (.link key field shapes), after)) :
    ∃ parent sets, runResolve (descend parent sets) noted = (.ok shapes, after) := by
  unfold fieldOf at h
  split at h
  · cases h
  · cases h
  · obtain ⟨nested, between, hrun, h⟩ := run_bind_eq_ok_iff.1 h
    cases h
    exact ⟨_, _, hrun⟩

theorem link_not_mem_implicitTypename {concrete key : String} {collected : Table Slot} {field : Field}
    {shapes : List TypeShape} : .link key field shapes ∉ ctx.implicitTypename concrete collected := by
  intro hm
  rcases implicitTypename_cases ctx concrete collected with hnone | ⟨-, -, names, optional, hone⟩
  · rw [hnone] at hm
    cases hm
  · rw [hone] at hm
    cases List.mem_singleton.1 hm

/-- what a run that gives a shape has noted: its type, and what the runs that gave the shapes of its links have noted -/
theorem noted_of_shapeOn {descend : String → List TaggedSet → Resolve (List TypeShape)}
    (hd : ∀ parent sets, (descend parent sets).Appends) {sets : List TaggedSet} {concrete : String}
    {noted after : List String} {shape : TypeShape}
    (h : runResolve (ctx.shapeOn descend sets concrete) noted = (.ok shape, after)) :
    shape.type ∈ after ∧ ∀ key field shapes, .link key field shapes ∈ shape.fields →
      ∃ parent sets before between, runResolve (descend parent sets) before = (.ok shapes, between) ∧ between ⊆ after := by
  have hfields : ∀ entry : String × Slot, (ctx.fieldOf descend concrete entry.1 entry.2).Appends :=
    fun entry => appends_fieldOf hd concrete entry.1 entry.2
  unfold shapeOn at h
  obtain ⟨_, first, hnote, h⟩ := run_bind_eq_ok_iff.1 h
  obtain ⟨collected, second, hgather, h⟩ := run_bind_eq_ok_iff.1 h
  obtain ⟨fields, last, hmapM, h⟩ := run_bind_eq_ok_iff.1 h
  cases h
  have hmem := mem_run_note concrete noted
  rw [hnote] at hmem
  rw [run_ofExcept] at hgather
  obtain ⟨-, rfl⟩ := Prod.mk.inj hgather
  have hgrows := (appends_mapM hfields collected.entries).grows first
  rw [hmapM] at hgrows
  refine ⟨hgrows.subset hmem, fun key field shapes hl => ?_⟩
  rcases List.mem_append.1 hl with hl | hl
  · exact absurd hl link_not_mem_implicitTypename
  · obtain ⟨entry, -, before, between, hrun, hsub⟩ := exists_run_of_mem_mapM hfields hmapM hl
    obtain ⟨parent, links, hrun⟩ := exists_run_of_link hrun
    exact ⟨parent, links, before, between, hrun, hsub⟩

/-- **The types of all shapes are noted** by a run that gives them, at every depth. -/
theorem noted_of_shapesUpTo {fuel : Nat} {parent : String} {sets : List TaggedSet} {noted after : List String}
    {shapes : List TypeShape} (h : runResolve (ctx.shapesUpTo fuel parent sets) noted = (.ok shapes, after))
    {outer inner : TypeShape} (ho : outer ∈ shapes) (hw : inner.Within outer) : inner.type ∈ after := by
  induction fuel generalizing parent sets noted after shapes outer with
  | zero => cases h
  | succ fuel ih =>
    rw [shapesUpTo] at h
    obtain ⟨concretes, between, -, h⟩ := run_bind_eq_ok_iff.1 h
    obtain ⟨concrete, -, before, last, hrun, hsub⟩ :=
      exists_run_of_mem_mapM (appends_shapeOn (appends_shapesUpTo fuel) sets) h ho
    obtain ⟨htype, hlinks⟩ := noted_of_shapeOn (appends_shapesUpTo fuel) hrun
    cases hw with
    | self => exact hsub htype
    | nested hl hb hw =>
      obtain ⟨child, links, before, between, hnested, hinner⟩ := hlinks _ _ _ hl
      exact hsub (hinner (ih hnested hb hw))

end ShapeContext

/-! ## Names of references -/

namespace TypeTerm

mutual

/-- the term with the types of its picks and look-ups under other names -/
def rename (names : String → String) : TypeTerm → TypeTerm
  | .literals texts => .literals texts
  | .named name => .named name
  | .scalar name => .scalar name
  | .pick type fields => .pick (names type) fields
  | .lookup type field => .lookup (names type) field
  | .wrapped wrapping term => .wrapped wrapping (rename names term)
  | .object members => .object (renameMembers names members)
  | .all parts => .all (renameParts names parts)
  | .any parts => .any (renameParts names parts)

/-- several terms with their types under other names -/
def renameParts (names : String → String) : List TypeTerm → List TypeTerm
  | [] => []
  | part :: rest => rename names part :: renameParts names rest

/-- the properties of an object type with their types under other names -/
def renameMembers (names : String → String) : List TermMember → List TermMember
  | [] => []
  | .mk key term optional :: rest => .mk key (rename names term) optional :: renameMembers names rest

end

variable {names : String → String}

theorem renameParts_append (parts more : List TypeTerm) :
    renameParts names (parts ++ more) = renameParts names parts ++ renameParts names more := by
  induction parts with
  | nil => rw [renameParts, List.nil_append, List.nil_append]
  | cons part rest ih => rw [List.cons_append, renameParts, renameParts, ih, List.cons_append]

theorem renameParts_objectTerm (members : List TermMember) :
    renameParts names (Target.objectTerm members) = Target.objectTerm (renameMembers names members) := by
  cases members with
  | nil => rfl
  | cons member rest =>
    cases member
    rfl

theorem renameParts_pickTerm (type : String) (fields : List String) :
    renameParts names (Target.pickTerm type fields) = Target.pickTerm (names type) fields := by
  cases fields <;> rfl

/-- type names refer to nothing -/
theorem renameMembers_typenameTerms (fields : List ShapeField) :
    renameMembers names (fields.filterMap ShapeField.typenameTerm?) = fields.filterMap ShapeField.typenameTerm? := by
  induction fields with
  | nil => rfl
  | cons field rest ih =>
    cases field with
    | typename key texts optional =>
      show TermMember.mk key (.literals texts) optional :: renameMembers names _ = _
      rw [ih]
      rfl
    | leaf => exact ih
    | link => exact ih

end TypeTerm

namespace Target

open TypeTerm

/-- the target with schema types under their own names -/
def ownNames (target : Target) : Target := { target with typeName := id }

variable (target : Target)

theorem renameMembers_renamedTerms (type : String) (fields : List ShapeField) :
    renameMembers target.typeName (fields.filterMap (ShapeField.renamedTerm? target.ownNames type)) =
      fields.filterMap (ShapeField.renamedTerm? target (target.typeName type)) := by
  induction fields with
  | nil => rfl
  | cons field rest ih =>
    cases field with
    | leaf key field =>
      by_cases hk : key = field.name
      · simp only [List.filterMap_cons, ShapeField.renamedTerm?, if_pos hk, ih]
      · simp only [List.filterMap_cons, ShapeField.renamedTerm?, if_neg hk, renameMembers, rename, ih]
        rfl
    | typename => exact ih
    | link => exact ih

mutual

/-- **The term of a shape** is the one with the schema types' own names, renamed. -/
theorem rename_shapeTerm : (shape : TypeShape) →
    (target.ownNames.shapeTerm shape).rename target.typeName = target.shapeTerm shape
  | .mk type fields => by
    rw [shapeTerm, shapeTerm, rename, renameParts_append, renameParts_append, renameParts_append, renameParts_objectTerm,
      renameParts_pickTerm, renameParts_objectTerm, renameParts_objectTerm, renameMembers_typenameTerms,
      renameMembers_renamedTerms, renameMembers_linkTerms fields]
    rfl

theorem renameParts_shapeTerms : (shapes : List TypeShape) →
    renameParts target.typeName (target.ownNames.shapeTerms shapes) = target.shapeTerms shapes
  | [] => by rw [shapeTerms, shapeTerms, renameParts]
  | shape :: rest => by
    rw [shapeTerms, shapeTerms, renameParts, rename_shapeTerm shape, renameParts_shapeTerms rest]

theorem renameMembers_linkTerms : (fields : List ShapeField) →
    renameMembers target.typeName (target.ownNames.linkTerms fields) = target.linkTerms fields
  | [] => by rw [linkTerms, linkTerms, renameMembers]
  | .typename _ _ _ :: rest => by rw [linkTerms, linkTerms, renameMembers_linkTerms rest]
  | .leaf _ _ :: rest => by rw [linkTerms, linkTerms, renameMembers_linkTerms rest]
  | .link key field shapes :: rest => by
    rw [linkTerms, linkTerms, renameMembers, rename, rename, renameParts_shapeTerms shapes, renameMembers_linkTerms rest]
    rfl

end

/-- **The term of shapes** is the one with the schema types' own names, renamed. -/
theorem rename_unionTerm (shapes : List TypeShape) :
    (target.ownNames.unionTerm shapes).rename target.typeName = target.unionTerm shapes := by
  rw [unionTerm, unionTerm, rename, renameParts_shapeTerms]

variable {target}

/-- under their own names, shapes refer to the types of shapes within them -/
theorem within_of_refers {shapes : List TypeShape} {type name : String}
    (h : (target.ownNames.unionTerm shapes).Refers type name) :
    ∃ outer ∈ shapes, ∃ inner : TypeShape, inner.Within outer ∧ inner.type = type := by
  cases h with
  | any hm h =>
    obtain ⟨outer, ho, inner, hw, -, -, -, htype, -⟩ := takesFrom_of_shapeTerms shapes hm h
    exact ⟨outer, ho, inner, hw, htype.symm⟩

end Target

/-! ## Calls one after the other -/

namespace ShapeContext

/-- what calls on parents and selection sets give one after the other, each with the types that are noted after it -/
def history (ctx : ShapeContext) :
    List String → List (String × List SelectionSet) → List (Except Error (List TypeShape) × List String)
  | _, [] => []
  | noted, (parent, sets) :: rest =>
    let outcome := runResolve (ctx.resolve parent sets) noted
    outcome :: history ctx outcome.2 rest

variable {ctx : ShapeContext}

theorem appends_resolve (parent : String) (sets : List SelectionSet) : (ctx.resolve parent sets).Appends :=
  appends_shapesUpTo _ parent _

/-- every entry comes from a call, after the types of earlier calls -/
theorem exists_call_of_mem_history {calls : List (String × List SelectionSet)} {noted : List String}
    {entry : Except Error (List TypeShape) × List String} (h : entry ∈ ctx.history noted calls) :
    ∃ call ∈ calls, ∃ before, noted <+: before ∧ (noted.Nodup → before.Nodup) ∧
      runResolve (ctx.resolve call.1 call.2) before = entry := by
  induction calls generalizing noted with
  | nil => cases h
  | cons call rest ih =>
    rcases List.mem_cons.1 h with rfl | h
    · exact ⟨call, List.mem_cons_self, noted, List.prefix_refl noted, id, rfl⟩
    · have happends : (ctx.resolve call.1 call.2).Appends := appends_resolve call.1 call.2
      obtain ⟨other, ho, before, hgrows, hnodup, hrun⟩ := ih h
      exact ⟨other, List.mem_cons_of_mem _ ho, before, (happends.grows noted).trans hgrows,
        fun hn => hnodup (happends.nodup noted hn), hrun⟩

theorem nodup_of_mem_history {calls : List (String × List SelectionSet)} {noted : List String} (hn : noted.Nodup)
    {entry : Except Error (List TypeShape) × List String} (h : entry ∈ ctx.history noted calls) : entry.2.Nodup := by
  obtain ⟨call, -, before, -, hnodup, rfl⟩ := exists_call_of_mem_history h
  exact (appends_resolve call.1 call.2).nodup before (hnodup hn)

theorem grows_of_mem_history {calls : List (String × List SelectionSet)} {noted : List String}
    {entry : Except Error (List TypeShape) × List String} (h : entry ∈ ctx.history noted calls) : noted <+: entry.2 := by
  obtain ⟨call, -, before, hgrows, -, rfl⟩ := exists_call_of_mem_history h
  exact hgrows.trans ((appends_resolve call.1 call.2).grows before)

theorem history_pairwise (calls : List (String × List SelectionSet)) (noted : List String) :
    (ctx.history noted calls).Pairwise fun earlier later => earlier.2 <+: later.2 := by
  induction calls generalizing noted with
  | nil => exact .nil
  | cons call rest ih => exact .cons (fun _ h => grows_of_mem_history h) (ih _)

end ShapeContext

namespace Target

/-- **The noted types cover every reference.** Let selections be resolved with one target by any calls, one after the other and
whatever becomes of each. The types that are noted after a call are distinct, and those of an earlier call are in front of those
of a later one. When a call succeeds, its text is a term of schema types that are renamed by the target and written; and every
type that the term picks fields from or looks a field up in, at any depth, is noted. -/
theorem noted_cover_references (target : Target) (fragments : FragmentIndex) (calls : List (String × List SelectionSet)) :
    (∀ entry ∈ (target.context fragments).history [] calls, entry.2.Nodup) ∧
    ((target.context fragments).history [] calls).Pairwise (fun earlier later => earlier.2 <+: later.2) ∧
    ∀ shapes noted, (.ok shapes, noted) ∈ (target.context fragments).history [] calls →
      target.renderUnion .pick shapes =
        ((target.ownNames.unionTerm shapes).rename target.typeName).write target.dialect ∧
      ∀ type name, (target.ownNames.unionTerm shapes).Refers type name → type ∈ noted := by
  refine ⟨fun entry h => nodup_of_mem_history List.nodup_nil h, history_pairwise calls [], fun shapes noted h => ⟨?_, ?_⟩⟩
  · rw [rename_unionTerm, write_unionTerm]
  · intro type name hrefers
    obtain ⟨call, -, before, -, -, hrun⟩ := exists_call_of_mem_history h
    obtain ⟨outer, ho, inner, hw, rfl⟩ := within_of_refers hrefers
    exact noted_of_shapesUpTo hrun ho hw

/-- a query for users, who have a team -/
def teamSchema : SchemaDocument :=
  [.type ⟨none, "Query", [], .object [] [⟨none, "user", [], .named "User", []⟩]⟩,
    .type ⟨none, "User", [], .object []
      [⟨none, "id", [], .nonNull (.named "ID"), []⟩, ⟨none, "team", [], .named "Team", []⟩]⟩,
    .type ⟨none, "Team", [], .object [] [⟨none, "name", [], .named "String", []⟩]⟩]

/-- a field that users do not have, and then the team of a user, whose name is looked up -/
def teamCalls : List (String × List SelectionSet) :=
  [("User", [[.field none "email" [] [] []]]),
    ("Query", [[.field none "user" [] []
      [.field none "id" [] [] [], .field none "team" [] [] [.field (some "called") "name" [] [] []]]]])]

theorem noted_cover_references_team :
    ∃ schema error shapes, Schema.ofDocument teamSchema = .ok schema ∧
      ((plainTarget schema).context .empty).history [] teamCalls =
        [(.error error, ["User"]), (.ok shapes, ["User", "Query", "Team"])] ∧
      ((plainTarget schema).ownNames.unionTerm shapes).Refers "Team" "name" ∧ "Team" ∈ ["User", "Query", "Team"] := by
  obtain ⟨schema, error, shapes, hschema, hhistory, hrefers⟩ :
      ∃ schema error shapes, Schema.ofDocument teamSchema = .ok schema ∧
        ((plainTarget schema).context .empty).history [] teamCalls =
          [(.error error, ["User"]), (.ok shapes, ["User", "Query", "Team"])] ∧
        ((plainTarget schema).ownNames.unionTerm shapes).Refers "Team" "name" := by
    refine ⟨_, _, _, rfl, rfl, ?_⟩
    -- down the links to the user and to the team
    exact .any (.head _) (.all (.tail _ (.head _)) (.object (.head _) (.wrapped (.any (.head _)
      (.all (.tail _ (.tail _ (.head _))) (.object (.head _) (.wrapped (.any (.head _)
        (.all (.tail _ (.head _)) (.object (.head _) .lookup))))))))))
  have hlast : (.ok shapes, ["User", "Query", "Team"]) ∈ ((plainTarget schema).context .empty).history [] teamCalls := by
    rw [hhistory]
    exact List.mem_cons_of_mem _ List.mem_cons_self
  have hnoted := ((noted_cover_references (plainTarget schema) .empty teamCalls).2.2 shapes _ hlast).2 "Team" "name" hrefers
  exact ⟨schema, error, shapes, hschema, hhistory, hrefers, hnoted⟩

end Target

end GraphGen

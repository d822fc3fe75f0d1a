/-
Input types that are written out.

The input objects of a schema may hold each other, and themselves. Writing one out follows their fields with a stack of those that
are being expanded, and stops where it meets one of them again: there the object is referred to by name. What is written is a
tree, an `InputTerm`: it is the same in every dialect and whatever names objects get, and the stack alone decides where it ends
(`InputTerm.Expands`).

- `InputTerm.Within`: names are referred to only inside the objects of these names.
- `exists_expands`: every type has a term below every stack, as each object on the way leaves less room for others (`room`).
- `run_of_expands`: a walk with more levels than there is room writes this term, and leaves the stack as it was.
- `write_of_expands`: only objects that can be met again are written by the names they get.

Main result:
- `expansion_reenters_only`: writing an input type out ends, with its stack restored, and refers by name only to objects that it
  is inside of; without cycles no name is ever written.
-/
import Mathlib.Data.List.Forall2
import Mathlib.Logic.Relation
import GraphGen.Schema.Build
import GraphGen.Targets.OperationTypes

namespace GraphGen

open Relation

/-! ## Terms -/

mutual

/-- an input type that is written out -/
inductive InputTerm where
  /-- a type that is no input object -/
  | leaf (name : String)
  /-- an input object inside itself, referred to by name -/
  | reentered (name : String)
  | object (name : String) (members : List InputMember)

/-- an input field with its type written out -/
inductive InputMember where
  | mk (field : InputValue) (term : InputTerm)

end

/-- the field of a member -/
def InputMember.field : InputMember → InputValue
  | mk field _ => field

namespace InputTerm

mutual

/-- the type in the syntax of a target -/
def write (target : Target) : InputTerm → String
  | .leaf name => target.writtenLeaf name
  | .reentered name => target.typeName name
  | .object _ members => target.dialect.object (writeMembers target members)

/-- the properties of an object in the syntax of a target -/
def writeMembers (target : Target) : List InputMember → List ObjectMember
  | [] => []
  | .mk field term :: rest => target.inlineProperty field.name field.type (write target term) :: writeMembers target rest

end

/-- below objects of these names, every reference by name is to one of them or to an object that it stands in -/
inductive Within : List String → InputTerm → Prop where
  | leaf {stack : List String} {name : String} : Within stack (.leaf name)
  | reentered {stack : List String} {name : String} (h : name ∈ stack) : Within stack (.reentered name)
  | object {stack : List String} {name : String} {members : List InputMember}
    (h : ∀ field term, .mk field term ∈ members → Within (stack ++ [name]) term) : Within stack (.object name members)

/-- the term is that of the type of a name, below a stack of objects that are being expanded -/
inductive Expands (schema : Schema) : List String → String → InputTerm → Prop where
  | leaf {stack : List String} {name : String} (h : schema.inputObject? name = none) : Expands schema stack name (.leaf name)
  | reentered {stack : List String} {name : String} {fields : Table InputValue} (h : schema.inputObject? name = some fields)
    (hm : name ∈ stack) : Expands schema stack name (.reentered name)
  | object {stack : List String} {name : String} {fields : Table InputValue} {members : List InputMember}
    (h : schema.inputObject? name = some fields) (hm : name ∉ stack)
    (hfields : members.map InputMember.field = fields.values)
    (hmembers : ∀ field term, .mk field term ∈ members → Expands schema (stack ++ [name]) field.type.name term) :
    Expands schema stack name (.object name members)

theorem Expands.within {schema : Schema} {stack : List String} {name : String} {term : InputTerm}
    (h : term.Expands schema stack name) : term.Within stack := by
  induction h with
  | leaf => exact .leaf
  | reentered _ hm => exact .reentered hm
  | object _ _ _ _ ih => exact .object ih

end InputTerm

/-! ## The way ends -/

namespace Schema

variable {schema : Schema} {name : String} {fields : Table InputValue}

/-- the number of types that can still be entered below a stack -/
def room (schema : Schema) (stack : List String) : Nat :=
  (schema.types.keys.filter (· ∉ stack)).length

theorem mem_keys_of_inputObject? (h : schema.inputObject? name = some fields) : name ∈ schema.types.keys := by
  unfold inputObject? at h
  split at h
  · rename_i type ht
    exact Table.mem_keys_iff.2 ⟨type, ht⟩
  · cases h

theorem room_le_size (schema : Schema) (stack : List String) : schema.room stack ≤ schema.types.size := by
  have hkeys : schema.types.keys.length = schema.types.size := by simp [Table.keys, entryKeys, Table.size]
  exact hkeys ▸ List.length_filter_le _ _

/-- **Entering an object leaves less room.** -/
theorem room_lt (h : schema.inputObject? name = some fields) {stack : List String} (hm : name ∉ stack) :
    schema.room (stack ++ [name]) < schema.room stack := by
  have hsub : (schema.types.keys.filter (· ∉ stack ++ [name])).Sublist (schema.types.keys.filter (· ∉ stack)) :=
    List.monotone_filter_right _ fun key hkey => by simp_all
  refine Nat.lt_of_le_of_ne hsub.length_le fun hlength => ?_
  have hname : name ∈ schema.types.keys.filter (· ∉ stack) := by
    simpa using ⟨mem_keys_of_inputObject? h, hm⟩
  rw [← hsub.eq_of_length hlength] at hname
  simp at hname

/-- an input object of the name has a field of the other type -/
def Encloses (schema : Schema) (name other : String) : Prop :=
  ∃ fields, schema.inputObject? name = some fields ∧ ∃ field ∈ fields.values, field.type.name = other

end Schema

namespace InputTerm

variable {schema : Schema} {stack : List String} {name : String} {term : InputTerm}

/-- members for all fields, when there is a term for each -/
theorem exists_members {values : List InputValue} {p : InputValue → InputTerm → Prop} (h : ∀ field ∈ values, ∃ term, p field term) :
    ∃ members : List InputMember, members.map InputMember.field = values ∧
      ∀ field term, .mk field term ∈ members → p field term := by
  induction values with
  | nil => exact ⟨[], rfl, fun _ _ hm => nomatch hm⟩
  | cons field rest ih =>
    obtain ⟨term, hterm⟩ := h field List.mem_cons_self
    obtain ⟨members, hfields, hmembers⟩ := ih fun other ho => h other (List.mem_cons_of_mem _ ho)
    refine ⟨.mk field term :: members, congrArg (field :: ·) hfields, fun other term' hm => ?_⟩
    rcases List.mem_cons.1 hm with heq | hm
    · cases heq
      exact hterm
    · exact hmembers other term' hm

/-- **Every type has a term,** below every stack. -/
theorem exists_expands (schema : Schema) (stack : List String) (name : String) :
    ∃ term : InputTerm, term.Expands schema stack name := by
  -- every object that is entered leaves less room for those in it
  induction hroom : schema.room stack using Nat.strongRecOn generalizing stack name with
  | ind room ih =>
    cases hobject : schema.inputObject? name with
    | none => exact ⟨.leaf name, .leaf hobject⟩
    | some fields =>
      by_cases hm : name ∈ stack
      · exact ⟨.reentered name, .reentered hobject hm⟩
      · have hless := Schema.room_lt hobject hm
        have hterms : ∀ field ∈ fields.values, ∃ term : InputTerm, term.Expands schema (stack ++ [name]) field.type.name :=
          fun field _ => ih _ (hroom ▸ hless) _ field.type.name rfl
        obtain ⟨members, hfields, hmembers⟩ := exists_members hterms
        exact ⟨.object name members, .object hobject hm hfields hmembers⟩

end InputTerm

/-! ## The walk -/

namespace OperationTypes

open InputTerm

variable {target : Target} {stack : List String} {name : String} {term : InputTerm}

/-- a walk inside an object leaves the stack as it was, when it restores it -/
theorem InputWalk.run_inside {α : Type} {walk : InputWalk α} {value : α}
    (h : walk.run (stack ++ [name]) = some (value, stack ++ [name])) :
    (InputWalk.inside name walk).run stack = some (value, stack) := by
  unfold InputWalk.inside
  rw [StateT.run_bind, StateT.run_modify, pure_bind, StateT.run_bind, h]
  simp [StateT.run_modify]

/-- a walk over fields that restores the stack after each of them writes their members -/
theorem run_members {walk : InputValue → InputWalk ObjectMember} {members : List InputMember}
    (h : ∀ field term, .mk field term ∈ members →
      (walk field).run stack = some (target.inlineProperty field.name field.type (term.write target), stack)) :
    ((members.map InputMember.field).mapM walk).run stack = some (writeMembers target members, stack) := by
  induction members with
  | nil => rw [writeMembers]; rfl
  | cons member rest ih =>
    obtain ⟨field, term⟩ := member
    have hrest := ih fun other term' hm => h other term' (List.mem_cons_of_mem _ hm)
    rw [List.map_cons, List.mapM_cons, StateT.run_bind, InputMember.field, h field term List.mem_cons_self,
      Option.bind_eq_bind, Option.bind_some, StateT.run_bind, hrest, writeMembers]
    rfl

/-- **A walk with enough levels writes the term** of the type, and restores its stack. -/
theorem run_of_expands (h : term.Expands target.schema stack name) {fuel : Nat} (hfuel : target.schema.room stack ≤ fuel) :
    (expandInput target (fuel + 1) name).run stack = some (term.write target, stack) := by
  induction h generalizing fuel with
  | leaf hobject =>
    rw [expandInput, hobject, InputTerm.write]
    rfl
  | @reentered stack name fields hobject hm =>
    have hmet : stack.contains name = true := by simpa using hm
    rw [expandInput, hobject, InputTerm.write]
    simp only [StateT.run_bind, StateT.run_get, pure_bind, hmet, if_true]
    rfl
  | @object stack name fields members hobject hm hfields hmembers ih =>
    have hnew : stack.contains name = false := by simpa using hm
    have hless := Schema.room_lt hobject hm
    obtain ⟨less, rfl⟩ : ∃ less, fuel = less + 1 := ⟨fuel - 1, by omega⟩
    have hmember : ∀ field term, .mk field term ∈ members →
        (do
          let base ← expandInput target (less + 1) field.type.name
          pure (target.inlineProperty field.name field.type base) : InputWalk ObjectMember).run (stack ++ [name]) =
          some (target.inlineProperty field.name field.type (term.write target), stack ++ [name]) := by
      intro field term hm
      rw [StateT.run_bind, ih field term hm (by omega)]
      rfl
    have hinside := InputWalk.run_inside (run_members hmember)
    rw [hfields] at hinside
    rw [expandInput, hobject, InputTerm.write]
    simp only [StateT.run_bind, StateT.run_get, pure_bind, hnew, Bool.false_eq_true, if_false]
    rw [hinside]
    rfl

theorem expandedInput_of_expands (h : term.Expands target.schema [] name) :
    expandedInput target name = term.write target := by
  have hrun := run_of_expands h (target.schema.room_le_size [])
  unfold expandedInput StateT.run'
  rw [show expandInput target (target.schema.types.size + 1) name [] = _ from hrun]
  rfl

/-! ## Names that are written -/

section Names

variable {converter : String → String}

theorem writeMembers_congr {members : List InputMember}
    (h : ∀ field term, .mk field term ∈ members → term.write { target with typeName := converter } = term.write target) :
    writeMembers { target with typeName := converter } members = writeMembers target members := by
  induction members with
  | nil => rw [writeMembers, writeMembers]
  | cons member rest ih =>
    obtain ⟨field, term⟩ := member
    rw [writeMembers, writeMembers, h field term List.mem_cons_self,
      ih fun other term' hm => h other term' (List.mem_cons_of_mem _ hm)]
    rfl

/-- **Only objects that can be met again are written by their names:** what is written depends on these names alone. -/
theorem write_of_expands (h : term.Expands target.schema stack name)
    (hstack : ∀ entered ∈ stack, TransGen target.schema.Encloses entered name)
    (hsame : ∀ other, ReflTransGen target.schema.Encloses name other → TransGen target.schema.Encloses other other →
      converter other = target.typeName other) :
    term.write { target with typeName := converter } = term.write target := by
  induction h with
  | leaf =>
    rw [InputTerm.write, InputTerm.write]
    rfl
  | @reentered stack name fields hobject hm =>
    rw [InputTerm.write, InputTerm.write]
    exact hsame name .refl (hstack name hm)
  | @object stack name fields members hobject hm hfields hmembers ih =>
    rw [InputTerm.write, InputTerm.write, writeMembers_congr]
    intro field term hmember
    have hvalue : field ∈ fields.values := hfields ▸ List.mem_map_of_mem hmember
    have hencloses : target.schema.Encloses name field.type.name := ⟨fields, hobject, field, hvalue, rfl⟩
    refine ih field term hmember (fun entered he => ?_) fun other ho => hsame other (.head hencloses ho)
    rcases List.mem_append.1 he with he | he
    · exact (hstack entered he).tail hencloses
    · rw [List.mem_singleton.1 he]
      exact .single hencloses

end Names

/-- **Input types are written out, with names only where they end in themselves.** For every schema, stack and type there is one
term that refers by name only to objects on the stack and to those that the reference stands in. Every walk with more levels than
the schema has types writes this term, in every dialect and with every name for objects, and leaves the stack as it was. When no
input object that the type reaches reaches itself, the names make no difference. -/
theorem expansion_reenters_only (schema : Schema) (name : String) :
    (∀ stack, ∃ term : InputTerm, term.Expands schema stack name ∧ term.Within stack ∧
      ∀ (target : Target) (fuel : Nat), target.schema = schema → schema.types.size < fuel →
        (expandInput target fuel name).run stack = some (term.write target, stack)) ∧
    (∀ target : Target, target.schema = schema →
      ∃ term : InputTerm, term.Expands schema [] name ∧ expandedInput target name = term.write target) ∧
    ((∀ other, ReflTransGen schema.Encloses name other → ¬ TransGen schema.Encloses other other) →
      ∀ (target : Target) (converter : String → String), target.schema = schema →
        expandedInput { target with typeName := converter } name = expandedInput target name) := by
  refine ⟨fun stack => ?_, ?_, ?_⟩
  · obtain ⟨term, hterm⟩ := exists_expands schema stack name
    refine ⟨term, hterm, hterm.within, ?_⟩
    rintro target fuel rfl hfuel
    obtain ⟨less, rfl⟩ : ∃ less, fuel = less + 1 := ⟨fuel - 1, by omega⟩
    exact run_of_expands hterm (Nat.le_trans (target.schema.room_le_size stack) (by omega))
  · rintro target rfl
    obtain ⟨term, hterm⟩ := exists_expands target.schema [] name
    exact ⟨term, hterm, expandedInput_of_expands hterm⟩
  · rintro hacyclic target converter rfl
    obtain ⟨term, hterm⟩ := exists_expands target.schema [] name
    have hrenamed : expandedInput { target with typeName := converter } name = _ := expandedInput_of_expands hterm
    rw [hrenamed, expandedInput_of_expands hterm]
    exact write_of_expands hterm (fun _ he => nomatch he) fun other ho hcycle => absurd hcycle (hacyclic other ho)

/-- filters hold filters and pages, and pages an order -/
def filterTypes : SchemaDocument :=
  [.type ⟨none, "Filter", [], .inputObject [⟨none, "not", .named "Filter", none, []⟩, ⟨none, "page", .named "Page", none, []⟩]⟩,
    .type ⟨none, "Page", [], .inputObject [⟨none, "first", .named "Int", none, []⟩, ⟨none, "order", .named "Order", none, []⟩]⟩,
    .type ⟨none, "Order", [], .inputObject [⟨none, "by", .named "String", none, []⟩]⟩]

/-- the schema of them -/
def filterSchema : Schema :=
  (Schema.ofDocument filterTypes).toOption.getD default

/-- what writes them in TypeScript -/
def filterTarget : Target :=
  ⟨filterSchema, .typeScript .union false, ScalarTargets.typeScript.target, ("I" ++ ·), .plain⟩

/-- the names that a page leads to, each before those it holds -/
def pageNames : List String := ["Page", "Order", "Int", "String"]

theorem encloses_pageNames {name other : String} (hn : name ∈ pageNames) (h : filterSchema.Encloses name other) :
    other ∈ pageNames ∧ pageNames.idxOf name < pageNames.idxOf other := by
  obtain ⟨fields, hobject, field, hf, rfl⟩ := h
  have hlater : ∀ name ∈ pageNames, ∀ field ∈ ((filterSchema.inputObject? name).map Table.values).getD [],
      field.type.name ∈ pageNames ∧ pageNames.idxOf name < pageNames.idxOf field.type.name := by decide +kernel
  refine hlater name hn field ?_
  rw [hobject]
  exact hf

theorem page_acyclic (other : String) (hreach : ReflTransGen filterSchema.Encloses "Page" other) :
    ¬ TransGen filterSchema.Encloses other other := by
  have hother : other ∈ pageNames := by
    induction hreach with
    | refl => exact List.mem_cons_self
    | tail _ hstep ih => exact (encloses_pageNames ih hstep).1
  have hlater : ∀ last, TransGen filterSchema.Encloses other last →
      last ∈ pageNames ∧ pageNames.idxOf other < pageNames.idxOf last := by
    intro last hlast
    induction hlast with
    | single hstep => exact encloses_pageNames hother hstep
    | tail _ hstep ih =>
      obtain ⟨hm, hless⟩ := encloses_pageNames ih.1 hstep
      exact ⟨hm, Nat.lt_trans ih.2 hless⟩
  exact fun hcycle => absurd (hlater other hcycle).2 (Nat.lt_irrefl _)

/-- a filter is referred to by name inside itself, and a page is written alike whatever names objects get -/
theorem expansion_reenters_only_page :
    Schema.ofDocument filterTypes = .ok filterSchema ∧
    (∃ term : InputTerm, term.Within ["Filter"] ∧
      (expandInput filterTarget 9 "Filter").run ["Filter"] = some (term.write filterTarget, ["Filter"])) ∧
    expandedInput filterTarget "Filter" =
      "\x7b not?: IFilter; page?: \x7b first?: number; order?: \x7b by?: string \x7d \x7d \x7d" ∧
    ∀ converter, expandedInput { filterTarget with typeName := converter } "Page" = expandedInput filterTarget "Page" := by
  obtain ⟨hwalk, -, -⟩ := expansion_reenters_only filterSchema "Filter"
  obtain ⟨term, -, hwithin, hrun⟩ := hwalk ["Filter"]
  refine ⟨rfl, ⟨term, hwithin, hrun filterTarget 9 rfl (by decide +kernel)⟩, by decide +kernel, fun converter => ?_⟩
  exact (expansion_reenters_only filterSchema "Page").2.2 page_acyclic filterTarget converter rfl

end OperationTypes

end GraphGen

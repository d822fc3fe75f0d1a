/-
Resolving selection sets against a schema.

- `Slot.merge`: what happens when a response key is met again: selections of one composite field are joined, and
  otherwise a field selected in place wins over one that comes from a spread.
- `gather`: the fields that selection sets select on one concrete type, under their response keys. Inline fragments
  and spreads that apply to the type are taken in at the same level.
- `specializes`: whether a selection set asks for a more special type than the one it stands on.
- `shapeTypes`: the types that get a shape of their own.
- `resolve`: the shapes of selection sets on a type. It also keeps the list of all types that got a shape, which grows
  even when resolving fails.

A stack of entered fragments bounds the walk at one level, and the heights of all selection sets together bound the
descent from level to level; when fragments do not spread themselves, neither bound is ever met.
-/
import GraphGen.Document.FragmentIndex
import GraphGen.Shape.Basic

namespace GraphGen

mutual

/-- the number of fields on the longest way down a selection -/
def Selection.height : Selection → Nat
  | .field _ _ _ _ selections => Selection.heightOf selections + 1
  | .spread _ _ => 0
  | .inline _ _ selections => Selection.heightOf selections

/-- the number of fields on the longest way down any of the selections -/
def Selection.heightOf : List Selection → Nat
  | [] => 0
  | selection :: rest => max (Selection.height selection) (Selection.heightOf rest)

end

/-- how a selection came to its level: it stands there, or in a fragment that is spread there -/
inductive Provenance where
  | inPlace
  | spread
  deriving DecidableEq, Inhabited

/-- a selection set with the origin of what contributed it -/
structure TaggedSet where
  selections : SelectionSet
  provenance : Provenance
  deriving Inhabited

/-- what is collected under a response key -/
inductive SlotContent where
  | typename
  | leaf (field : Field)
  | link (field : Field) (sets : List TaggedSet)
  deriving Inhabited

/-- a collected field and its origin -/
structure Slot where
  provenance : Provenance
  value : SlotContent
  deriving Inhabited

/-- the new entry takes the place of the old one only when it stands in place and the old one comes from a spread -/
def Slot.prefer (old new : Slot) : Slot :=
  if old.provenance = .spread && new.provenance = .inPlace then new else old

/-- what stands under a key that is met again -/
def Slot.merge (old new : Slot) : Slot :=
  match old.value, new.value with
  | .link field sets, .link other more =>
    if field.name = other.name then
      ⟨if new.provenance = .inPlace then .inPlace else old.provenance, .link field (sets ++ more)⟩
    else old.prefer new
  | _, _ => old.prefer new

/-- enters a field under its response key -/
def fillSlot (out : Table Slot) (key : String) (entry : Slot) : Table Slot :=
  match out.get? key with
  | none => out.insert key entry
  | some old => out.insert key (old.merge entry)

/-- what selections are resolved against -/
structure ShapeContext where
  schema : Schema
  fragments : FragmentIndex
  options : ShapeSettings

namespace ShapeContext

/-- whether a condition on a type holds for the concrete type -/
def conditionHolds (ctx : ShapeContext) (concrete condition : String) : Bool :=
  ctx.schema.fits concrete condition || (ctx.schema.possibleTypes condition).contains concrete

/-- the fragment of a name, which must not be entered already -/
def openFragment (ctx : ShapeContext) (stack : List String) (name : String) : Except Error IndexedFragment :=
  if stack.contains name then .error (.cyclicFragment (FragmentIndex.cycleAt stack name))
  else ctx.fragments.require name

/-! ## Collecting fields -/

/-- what a field selection collects on a concrete type -/
def fieldContent (ctx : ShapeContext) (concrete : String) (provenance : Provenance) (name : String)
    (selections : SelectionSet) : Except Error SlotContent :=
  if name = "__typename" then .ok .typename
  else
    match ctx.schema.requireField concrete name with
    | .error error => .error error
    | .ok field =>
      if ctx.schema.isLeaf field.type.name then .ok (.leaf field) else .ok (.link field [⟨selections, provenance⟩])

mutual

/-- collects a selection; `expand` takes in the fragment of a spread -/
def gatherSelection (ctx : ShapeContext) (expand : String → Table Slot → Except Error (Table Slot))
    (concrete : String) (provenance : Provenance) (out : Table Slot) : Selection → Except Error (Table Slot)
  | .field aliasName name _ _ selections =>
    match ctx.fieldContent concrete provenance name selections with
    | .error error => .error error
    | .ok value => .ok (fillSlot out (aliasName.getD name) ⟨provenance, value⟩)
  | .inline condition _ selections =>
    if (condition.map (ctx.conditionHolds concrete)).getD true then
      gatherSelections ctx expand concrete provenance out selections
    else .ok out
  | .spread name _ => expand name out

/-- collects selections in order -/
def gatherSelections (ctx : ShapeContext) (expand : String → Table Slot → Except Error (Table Slot))
    (concrete : String) (provenance : Provenance) (out : Table Slot) : List Selection → Except Error (Table Slot)
  | [] => .ok out
  | selection :: rest =>
    match gatherSelection ctx expand concrete provenance out selection with
    | .error error => .error error
    | .ok out => gatherSelections ctx expand concrete provenance out rest

end

/-- collects a selection set, given the fragments that are entered and how many more may be -/
def gatherSet (ctx : ShapeContext) (concrete : String) :
    Nat → List String → TaggedSet → Table Slot → Except Error (Table Slot)
  | 0, stack, _, _ => .error (.cyclicFragment stack)
  | fuel + 1, stack, set, out =>
    let expand (name : String) (out : Table Slot) : Except Error (Table Slot) :=
      match ctx.openFragment stack name with
      | .error error => .error error
      | .ok entry =>
        if ctx.conditionHolds concrete entry.fragment.condition then
          gatherSet ctx concrete fuel (stack ++ [name]) ⟨entry.fragment.selections, .spread⟩ out
        else .ok out
    ctx.gatherSelections expand concrete set.provenance out set.selections

/-- the fields that selection sets select on a concrete type -/
def gather (ctx : ShapeContext) (concrete : String) (sets : List TaggedSet) : Except Error (Table Slot) :=
  sets.foldlM (fun out set => ctx.gatherSet concrete (ctx.fragments.size + 1) [] set out) .empty

/-! ## Concrete types -/

mutual

/-- whether a selection asks for a type other than `parent`; `expand` looks into the fragment of a spread -/
def specializesSelection (expand : String → Except Error Bool) (parent : String) : Selection → Except Error Bool
  | .field _ _ _ _ _ => .ok false
  | .inline condition _ selections =>
    if (condition.map (· != parent)).getD false then .ok true else specializesSelections expand parent selections
  | .spread name _ => expand name

/-- whether one of the selections asks for a type other than `parent`; the first that does ends the search -/
def specializesSelections (expand : String → Except Error Bool) (parent : String) : List Selection → Except Error Bool
  | [] => .ok false
  | selection :: rest =>
    match specializesSelection expand parent selection with
    | .ok false => specializesSelections expand parent rest
    | found => found

end

/-- whether a selection set asks for a type other than `parent`, given the fragments that are entered -/
def specializesSet (ctx : ShapeContext) (parent : String) : Nat → List String → SelectionSet → Except Error Bool
  | 0, stack, _ => .error (.cyclicFragment stack)
  | fuel + 1, stack, selections =>
    let expand (name : String) : Except Error Bool :=
      match ctx.openFragment stack name with
      | .error error => .error error
      | .ok entry =>
        if entry.fragment.condition ≠ parent then .ok true
        else specializesSet ctx parent fuel (stack ++ [name]) entry.fragment.selections
    specializesSelections expand parent selections

/-- whether one of the sets asks for a type other than `parent` -/
def specializes (ctx : ShapeContext) (parent : String) : List TaggedSet → Except Error Bool
  | [] => .ok false
  | set :: rest =>
    match ctx.specializesSet parent (ctx.fragments.size + 1) [] set.selections with
    | .ok false => specializes ctx parent rest
    | found => found

/-- the types that get a shape of their own: an object, the members of a union, and the implementors of an interface
when the selections ask for one -/
def shapeTypes (ctx : ShapeContext) (parent : String) (sets : List TaggedSet) : Except Error (List String) :=
  match ctx.schema.requireType parent with
  | .error error => .error error
  | .ok type =>
    match type.kind with
    | .object => .ok [type.name]
    | .union => .ok (ctx.schema.possibleTypes parent)
    | .interface =>
      let possible := ctx.schema.possibleTypes parent
      if possible.isEmpty then .ok [type.name]
      else
        match ctx.specializes parent sets with
        | .error error => .error error
        | .ok narrowed => .ok (if narrowed then possible else [type.name])
    | kind => .error (.custom s!"cannot select fields on {kind.words} type `{parent}`")

/-! ## Shapes -/

/-- the names that the type name of a value can have: those of the possible types for an interface that has some -/
def typenames (ctx : ShapeContext) (concrete : String) : List String :=
  let possible := if ctx.schema.kind? concrete = some .interface then ctx.schema.possibleTypes concrete else []
  if possible.isEmpty then [concrete] else possible

/-- the type name that is added in front when it is not selected -/
def implicitTypename (ctx : ShapeContext) (concrete : String) (collected : Table Slot) : List ShapeField :=
  let selected := collected.values.any fun entry =>
    match entry.value with
    | .typename => true
    | _ => false
  if selected || ctx.options.skipTypename then []
  else [.typename "__typename" (ctx.typenames concrete) (!ctx.options.nonOptionalTypename)]

end ShapeContext

/-- resolving keeps the types that got a shape, also when it fails -/
abbrev Resolve (α : Type) := ExceptT Error (StateM (List String)) α

/-- a result that gives no type a shape -/
def Resolve.ofExcept {α : Type} (result : Except Error α) : Resolve α :=
  match result with
  | .ok value => pure value
  | .error error => throw error

namespace ShapeContext

/-- notes that a type gets a shape -/
def note (concrete : String) : Resolve Unit :=
  modify fun visited => if visited.contains concrete then visited else visited ++ [concrete]

/-- the field of a collected entry; `descend` gives the shapes of its selections -/
def fieldOf (ctx : ShapeContext) (descend : String → List TaggedSet → Resolve (List TypeShape)) (concrete : String)
    (key : String) (entry : Slot) : Resolve ShapeField :=
  match entry.value with
  | .typename => pure (.typename key (ctx.typenames concrete) false)
  | .leaf field => pure (.leaf key field)
  | .link field sets => do
    let shapes ← descend field.type.name sets
    pure (.link key field shapes)

/-- the shape of selection sets on a concrete type -/
def shapeOn (ctx : ShapeContext) (descend : String → List TaggedSet → Resolve (List TypeShape))
    (sets : List TaggedSet) (concrete : String) : Resolve TypeShape := do
  note concrete
  let collected ← Resolve.ofExcept (ctx.gather concrete sets)
  let fields ← collected.entries.mapM fun (key, entry) => ctx.fieldOf descend concrete key entry
  pure (.mk concrete (ctx.implicitTypename concrete collected ++ fields))

/-- the shapes of selection sets on a type, at most `fuel` levels deep -/
def shapesUpTo (ctx : ShapeContext) : Nat → String → List TaggedSet → Resolve (List TypeShape)
  | 0, _, _ => throw (.cyclicFragment [])
  | fuel + 1, parent, sets => do
    let concretes ← Resolve.ofExcept (ctx.shapeTypes parent sets)
    concretes.mapM (ctx.shapeOn (shapesUpTo ctx fuel) sets)

/-- the heights of selection sets together -/
def heights : List SelectionSet → Nat
  | [] => 0
  | set :: rest => Selection.heightOf set + heights rest

/-- the levels that selection sets can have, fragments included -/
def levels (ctx : ShapeContext) (sets : List SelectionSet) : Nat :=
  heights sets + heights (ctx.fragments.entries.values.map (·.fragment.selections)) + 1

/-- the shapes of tagged selection sets on a type -/
def resolveTagged (ctx : ShapeContext) (parent : String) (sets : List TaggedSet) : Resolve (List TypeShape) :=
  ctx.shapesUpTo (ctx.levels (sets.map (·.selections))) parent sets

/-- the shapes of several selection sets on a type, as if they were one -/
def resolve (ctx : ShapeContext) (parent : String) (sets : List SelectionSet) : Resolve (List TypeShape) :=
  ctx.resolveTagged parent (sets.map (⟨·, .inPlace⟩))

/-- what resolving gives and the types that got a shape, those of earlier runs first -/
def runResolve {α : Type} (action : Resolve α) (visited : List String) : Except Error α × List String :=
  action.run visited

end ShapeContext

end GraphGen

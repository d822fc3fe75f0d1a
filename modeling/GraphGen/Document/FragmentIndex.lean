/-
The fragments that documents can spread.

- `FragmentIndex`: fragments under their names, those of documents before those from outside.
- `FragmentIndex.ofDocuments`: refuses a name that two documents define and fragments that spread themselves; a fragment
  from outside gives way to one of the same name that is already there.
- `walk`: a depth-first walk along spreads that finds a cycle as the piece of the current path from the first mention
  of a name to its second.
- `closure`: the fragments that a selection set needs, in the order a depth-first walk first meets them.
-/
import GraphGen.Document.Basic
import GraphGen.Document.Reader
import GraphGen.Error
import GraphGen.Table

namespace GraphGen

/-- the document of a text, with the location it was loaded from -/
def LocatedDocument.parse (location text : String) : Except Error LocatedDocument :=
  match Document.parse? text with
  | some document => .ok ⟨location, document⟩
  | none => .error (.documentParse location "the text is not an executable document")

/-- a fragment with where it comes from -/
structure IndexedFragment where
  fragment : Fragment
  /-- the document the fragment was read from -/
  location : String
  /-- whether the fragment comes from outside the documents -/
  isExternal : Bool
  deriving Inhabited

/-- the fragment names that a fragment spreads -/
def IndexedFragment.spreads (entry : IndexedFragment) : List String :=
  entry.fragment.selections.spreads

/-- the fragments that documents can spread -/
structure FragmentIndex where
  entries : Table IndexedFragment
  deriving Inhabited

namespace FragmentIndex

/-- the index without fragments -/
def empty : FragmentIndex := ⟨.empty⟩

/-- the fragment of a name -/
def get? (index : FragmentIndex) (name : String) : Option IndexedFragment :=
  index.entries.get? name

/-- the fragment of a name, which must be known -/
def require (index : FragmentIndex) (name : String) : Except Error IndexedFragment :=
  match index.get? name with
  | some entry => .ok entry
  | none => .error (.unknownFragment name)

/-- the number of fragments -/
def size (index : FragmentIndex) : Nat :=
  index.entries.size

/-! ## Cycles -/

/-- the piece of a path from the first mention of a name on, closed by the name -/
def cycleAt (path : List String) (name : String) : List String :=
  path.dropWhile (· ≠ name) ++ [name]

/-- walks from a name along spreads, given the names of the current path and the names that are done; returns the names
that are done afterwards. A path holds known names once each, so that its length bounds the walk. -/
def walk (index : FragmentIndex) : Nat → List String → List String → String → Except Error (List String)
  | 0, path, _, name => .error (.cyclicFragment (path ++ [name]))
  | fuel + 1, path, done, name =>
    if done.contains name then .ok done
    else if path.contains name then .error (.cyclicFragment (cycleAt path name))
    else
      match index.get? name with
      | none => .ok done
      | some entry => do
        let done ← entry.spreads.foldlM (walk index fuel (path ++ [name])) done
        pure (name :: done)

/-- fails when a fragment spreads itself, directly or through other fragments -/
def refuseCycles (index : FragmentIndex) : Except Error Unit := do
  let _ ← index.entries.keys.foldlM (walk index (index.size + 1) []) []

/-! ## Building -/

/-- enters a fragment of a document, whose name must be new -/
def addLocal (location : String) (entries : Table IndexedFragment) (fragment : Fragment) :
    Except Error (Table IndexedFragment) :=
  if entries.contains fragment.name then .error (.duplicateFragment fragment.name)
  else .ok (entries.insert fragment.name ⟨fragment, location, false⟩)

/-- enters a fragment from outside unless its name is taken -/
def addExternal (entries : Table IndexedFragment) (fragment : Fragment) : Table IndexedFragment :=
  if entries.contains fragment.name then entries
  else entries.insert fragment.name ⟨fragment, "<external>", true⟩

/-- the index of the fragments of documents and of further fragments from outside -/
def ofDocuments (sources : List LocatedDocument) (external : List Fragment) : Except Error FragmentIndex := do
  let locals ← sources.foldlM (fun entries source => source.fragments.foldlM (addLocal source.location) entries) .empty
  let index : FragmentIndex := ⟨external.foldl addExternal locals⟩
  index.refuseCycles
  pure index

/-! ## Dependencies -/

/-- takes the fragment of a name out of those that were not met yet -/
def without (name : String) (entries : List (String × IndexedFragment)) : List (String × IndexedFragment) :=
  entries.filter fun entry => entry.1 != name

theorem length_without_lt {name : String} {entry : IndexedFragment} {entries : List (String × IndexedFragment)}
    (h : entries.lookup name = some entry) : (without name entries).length < entries.length := by
  induction entries with
  | nil => simp at h
  | cons e rest ih =>
    obtain ⟨key, value⟩ := e
    simp only [List.lookup_cons] at h
    by_cases same : name = key
    · subst same
      have : (without name rest).length ≤ rest.length := List.length_filter_le _ _
      simp only [without, bne_self_eq_false, Bool.false_eq_true, not_false_eq_true, List.filter_cons_of_neg,
        List.length_cons]
      exact Nat.lt_succ_of_le this
    · have differs : (name == key) = false := by simpa using same
      simp only [differs] at h
      have keep : (key != name) = true := by simpa [bne_iff_ne] using fun e => same e.symm
      simp only [without, List.filter_cons, keep, if_true, List.length_cons]
      exact Nat.succ_lt_succ (ih h)

/-- meets the pending names in order; a fragment met for the first time puts its own spreads in front -/
def reach (unmet : List (String × IndexedFragment)) (met : List IndexedFragment) :
    List String → Except Error (List IndexedFragment)
  | [] => .ok met
  | name :: pending =>
    match _found : unmet.lookup name with
    | some entry => reach (without name unmet) (met ++ [entry]) (entry.spreads ++ pending)
    | none =>
      if met.any fun entry => entry.fragment.name = name then reach unmet met pending
      else .error (.unknownFragment name)
termination_by pending => (unmet.length, pending.length)
decreasing_by
  · exact Prod.Lex.left _ _ (length_without_lt _found)
  · exact Prod.Lex.right _ (Nat.lt_succ_self _)

/-- the fragments that a selection set needs, directly or through other fragments -/
def closure (index : FragmentIndex) (selections : SelectionSet) : Except Error (List IndexedFragment) :=
  reach index.entries.entries [] selections.spreads

end FragmentIndex

end GraphGen

/-
Tables: values under distinct names, in the order in which the names were first entered.

- `Table`: the entries, with the invariant that no name occurs twice.
- `get?`, `contains`: look-up by name.
- `insert`: a new name goes to the end; a known name keeps its place and takes the new value.
- `ofList`: the entries of a list, entered one after another.
- `keys_insert`, `get?_insert`, `entries_insert_of_not_mem`: what `insert` does to the names, the values and the entries.
- `get?_eq_some_iff`: look-up finds the entries and nothing else.
- `eq_of_get?`: a table is determined by its names in order and by what stands under them.
- `get?_insertAll`, `get?_ofList`: what entries of a list leave under a name.
- `forall_values_iff`: the values are what is found under the names.
-/
namespace GraphGen

/-- the names of a list of named values -/
def entryKeys {α : Type u} (entries : List (String × α)) : List String :=
  entries.map Prod.fst

/-- enters a value: in place of the entry of that name, or else at the end -/
def insertEntry {α : Type u} (key : String) (value : α) : List (String × α) → List (String × α)
  | [] => [(key, value)]
  | entry :: rest => if entry.1 = key then (key, value) :: rest else entry :: insertEntry key value rest

theorem entryKeys_insertEntry {α : Type u} (key : String) (value : α) (entries : List (String × α)) :
    entryKeys (insertEntry key value entries) =
      if key ∈ entryKeys entries then entryKeys entries else entryKeys entries ++ [key] := by
  induction entries with
  | nil => simp [insertEntry, entryKeys]
  | cons entry rest ih =>
    by_cases h : entry.1 = key
    · simp [insertEntry, h, entryKeys]
    · have h' : ¬ key = entry.1 := fun e => h e.symm
      simp only [entryKeys] at ih
      by_cases present : key ∈ rest.map Prod.fst <;> simp [insertEntry, entryKeys, h, h', ih, present]

theorem nodup_insertEntry {α : Type u} {key : String} {value : α} {entries : List (String × α)}
    (h : (entryKeys entries).Nodup) : (entryKeys (insertEntry key value entries)).Nodup := by
  rw [entryKeys_insertEntry]
  split
  · exact h
  · rename_i absent
    rw [List.nodup_append]
    refine ⟨h, by simp, ?_⟩
    intro a ha b hb
    simp only [List.mem_singleton] at hb
    subst hb
    exact fun e => absent (e ▸ ha)

theorem insertEntry_of_not_mem {α : Type u} {key : String} {value : α} {entries : List (String × α)}
    (h : key ∉ entryKeys entries) : insertEntry key value entries = entries ++ [(key, value)] := by
  induction entries with
  | nil => rfl
  | cons entry rest ih =>
    simp only [entryKeys, List.map_cons, List.mem_cons, not_or] at h
    have differs : ¬ entry.1 = key := fun e => h.1 e.symm
    simp only [insertEntry, differs, if_false, List.cons_append, ih h.2]

theorem lookup_cons_ite {α : Type u} (key first : String) (value : α) (rest : List (String × α)) :
    ((first, value) :: rest).lookup key = if key = first then some value else rest.lookup key := by
  by_cases same : key = first
  · simp [same]
  · have differs : (key == first) = false := by simpa using same
    simp [List.lookup_cons, same, differs]

theorem lookup_insertEntry {α : Type u} (key other : String) (value : α) (entries : List (String × α)) :
    (insertEntry key value entries).lookup other = if other = key then some value else entries.lookup other := by
  induction entries with
  | nil => rw [insertEntry, lookup_cons_ite]
  | cons entry rest ih =>
    obtain ⟨first, held⟩ := entry
    by_cases h : first = key
    · subst h
      simp only [insertEntry, if_true, lookup_cons_ite]
      by_cases same : other = first <;> simp [same]
    · simp only [insertEntry, h, if_false, lookup_cons_ite, ih]
      by_cases same : other = first
      · simp [same, h]
      · simp [same]

theorem lookup_eq_some_iff {α : Type u} {key : String} {value : α} {entries : List (String × α)}
    (h : (entryKeys entries).Nodup) : entries.lookup key = some value ↔ (key, value) ∈ entries := by
  induction entries with
  | nil => simp
  | cons entry rest ih =>
    obtain ⟨first, held⟩ := entry
    simp only [entryKeys, List.map_cons, List.nodup_cons] at h
    rw [lookup_cons_ite]
    by_cases same : key = first
    · subst same
      have absent : (key, value) ∉ rest := fun m => h.1 (List.mem_map.2 ⟨(key, value), m, rfl⟩)
      simp [absent, eq_comm]
    · simp [same, ih h.2]

/-- values under distinct names, in the order in which the names were first entered -/
structure Table (α : Type u) where
  entries : List (String × α)
  nodup : (entryKeys entries).Nodup

namespace Table

variable {α : Type u}

/-- the table without entries -/
def empty : Table α := ⟨[], by simp [entryKeys]⟩

instance : Inhabited (Table α) := ⟨empty⟩

/-- the names in order -/
def keys (t : Table α) : List String :=
  entryKeys t.entries

/-- the values in order -/
def values (t : Table α) : List α :=
  t.entries.map Prod.snd

/-- the value under a name -/
def get? (t : Table α) (key : String) : Option α :=
  t.entries.lookup key

/-- whether there is a value under a name -/
def contains (t : Table α) (key : String) : Bool :=
  (t.get? key).isSome

/-- the number of entries -/
def size (t : Table α) : Nat :=
  t.entries.length

/-- whether there is no entry -/
def isEmpty (t : Table α) : Bool :=
  t.entries.isEmpty

/-- enters a value: in place of the entry of that name, or else at the end -/
def insert (t : Table α) (key : String) (value : α) : Table α :=
  ⟨insertEntry key value t.entries, nodup_insertEntry t.nodup⟩

/-- removes the entry of a name; the others keep their order -/
def erase (t : Table α) (key : String) : Table α :=
  ⟨t.entries.filter fun entry => entry.1 != key, by
    have sub : (entryKeys (t.entries.filter fun entry => entry.1 != key)).Sublist (entryKeys t.entries) :=
      List.Sublist.map _ List.filter_sublist
    exact t.nodup.sublist sub⟩

/-- the entries of a list, entered one after another -/
def ofList (entries : List (String × α)) : Table α :=
  entries.foldl (fun t (key, value) => t.insert key value) empty

/-- enters further entries, one after another -/
def insertAll (t : Table α) (entries : List (String × α)) : Table α :=
  entries.foldl (fun t (key, value) => t.insert key value) t

/-- a new name goes to the end, a known one keeps its place -/
theorem keys_insert (t : Table α) (key : String) (value : α) :
    (t.insert key value).keys = if key ∈ t.keys then t.keys else t.keys ++ [key] :=
  entryKeys_insertEntry key value t.entries

theorem nodup_keys (t : Table α) : t.keys.Nodup :=
  t.nodup

theorem get?_insert (t : Table α) (key other : String) (value : α) :
    (t.insert key value).get? other = if other = key then some value else t.get? other :=
  lookup_insertEntry key other value t.entries

theorem get?_eq_some_iff {t : Table α} {key : String} {value : α} :
    t.get? key = some value ↔ (key, value) ∈ t.entries :=
  lookup_eq_some_iff t.nodup

theorem mem_keys_iff {t : Table α} {key : String} : key ∈ t.keys ↔ ∃ value, t.get? key = some value := by
  simp [keys, entryKeys, get?_eq_some_iff]

theorem contains_iff {t : Table α} {key : String} : t.contains key = true ↔ key ∈ t.keys := by
  rw [contains, Option.isSome_iff_exists, mem_keys_iff]

theorem get?_eq_none_iff {t : Table α} {key : String} : t.get? key = none ↔ key ∉ t.keys := by
  rw [← contains_iff, contains, Bool.not_eq_true, Option.isSome_eq_false_iff, Option.isNone_iff_eq_none]

theorem entries_insert_of_not_mem {t : Table α} {key : String} {value : α} (h : key ∉ t.keys) :
    (t.insert key value).entries = t.entries ++ [(key, value)] :=
  insertEntry_of_not_mem h

/-- the entries in terms of the names and of look-up -/
theorem entries_eq (t : Table α) : t.entries = t.keys.filterMap fun key => (t.get? key).map fun value => (key, value) := by
  have hfound : t.entries.map (fun entry => (t.get? entry.1).map fun value => (entry.1, value)) = t.entries.map some := by
    refine List.map_congr_left fun entry he => ?_
    rw [get?_eq_some_iff.2 he, Option.map_some]
  calc t.entries = (t.entries.map some).filterMap id := by simp
    _ = (t.entries.map fun entry => (t.get? entry.1).map fun value => (entry.1, value)).filterMap id := by rw [hfound]
    _ = _ := by rw [keys, entryKeys, List.filterMap_map, List.filterMap_map]; rfl

theorem eq_of_get? {t u : Table α} (hk : t.keys = u.keys) (h : ∀ key, t.get? key = u.get? key) : t = u := by
  have hentries : t.entries = u.entries := by rw [t.entries_eq, u.entries_eq, hk, funext h]
  obtain ⟨entries, nodup⟩ := t
  obtain ⟨others, nodup'⟩ := u
  cases hentries
  rfl

theorem insertAll_ofList (entries more : List (String × α)) :
    (ofList entries).insertAll more = ofList (entries ++ more) :=
  List.foldl_append.symm

/-- under a name stands what was entered last -/
theorem get?_insertAll (t : Table α) (entries : List (String × α)) (key : String) :
    (t.insertAll entries).get? key = ((entries.filter (·.1 = key)).getLast?.map Prod.snd).or (t.get? key) := by
  induction entries generalizing t with
  | nil => rfl
  | cons entry rest ih =>
    have hfirst : t.insertAll (entry :: rest) = (t.insert entry.1 entry.2).insertAll rest := rfl
    rw [hfirst, ih, get?_insert]
    by_cases h : entry.1 = key
    · rw [List.filter_cons_of_pos (by simpa using h), if_pos h.symm, List.getLast?_cons]
      cases (rest.filter (·.1 = key)).getLast? <;> rfl
    · rw [List.filter_cons_of_neg (by simpa using h), if_neg (Ne.symm h)]

theorem get?_ofList (entries : List (String × α)) (key : String) :
    (ofList entries).get? key = (entries.filter (·.1 = key)).getLast?.map Prod.snd := by
  have hempty : ofList entries = empty.insertAll entries := rfl
  rw [hempty, get?_insertAll]
  exact Option.or_none

/-- what stands in a table after more was entered was entered or stood there before -/
theorem mem_of_get?_insertAll {t : Table α} {entries : List (String × α)} {key : String} {value : α}
    (h : (t.insertAll entries).get? key = some value) : (key, value) ∈ entries ∨ t.get? key = some value := by
  rw [get?_insertAll, Option.or_eq_some_iff] at h
  rcases h with hlast | ⟨-, hbefore⟩
  · obtain ⟨entry, hfound, rfl⟩ := Option.map_eq_some_iff.1 hlast
    obtain ⟨hentry, hkey⟩ := List.mem_filter.1 (List.mem_of_getLast? hfound)
    rw [← of_decide_eq_true hkey]
    exact .inl hentry
  · exact .inr hbefore

theorem mem_of_get?_ofList {entries : List (String × α)} {key : String} {value : α}
    (h : (ofList entries).get? key = some value) : (key, value) ∈ entries :=
  (mem_of_get?_insertAll (t := empty) h).resolve_right nofun

/-- what holds of all values holds of what is found under any name -/
theorem forall_values_iff {t : Table α} {p : α → Prop} :
    (∀ value ∈ t.values, p value) ↔ ∀ key value, t.get? key = some value → p value := by
  constructor
  · intro h key value hv
    exact h value (List.mem_map.2 ⟨(key, value), get?_eq_some_iff.1 hv, rfl⟩)
  · intro h value hv
    obtain ⟨⟨key, _⟩, hentry, rfl⟩ := List.mem_map.1 hv
    exact h key _ (get?_eq_some_iff.2 hentry)

end Table

end GraphGen

/-
Paths and where they lead.

- `FileSystem.place?`: the place that a path leads to.
- `pieces_joinAll`: the pieces of a path that goes on from a directory, name by name.
- `joinAll_injective`: different names lead on to different paths.
- `place?_joinAll`: such a path leads from the directory to what stands at these names below it.
-/
import GraphGen.Proofs.Project.Trees
import GraphGen.Proofs.Text.Cutting

namespace GraphGen

/-! ## Pieces -/

namespace Path

variable {directory name : String} {names : Place}

theorem isEntryName_ne_empty (h : IsEntryName name) : name ≠ "" := by
  rintro rfl
  cases h.1

theorem pieces_eq_map (path : String) : pieces path = (path.toList.splitOn '/').map String.ofList := by
  rw [pieces, Text.splitAll, Text.cutAll_eq_splitOn]

theorem pieces_slash (path rest : String) : pieces (path ++ "/" ++ rest) = pieces path ++ pieces rest := by
  have hlist : (path ++ "/" ++ rest).toList = path.toList ++ '/' :: rest.toList := by
    rw [String.toList_append, String.toList_append, List.append_assoc]
    rfl
  rw [pieces_eq_map, pieces_eq_map, pieces_eq_map, hlist, List.splitOn_append_cons_self, List.map_append]

theorem pieces_slash_end (path : String) : pieces (path ++ "/") = pieces path ++ [""] := by
  have h := pieces_slash path ""
  rwa [String.append_empty] at h

theorem pieces_name (h : IsEntryName name) : pieces name = [name] := by
  rw [pieces_eq_map, List.splitOn_eq_singleton h.2.2]
  simp

theorem isAbsolute_name (h : IsEntryName name) : isAbsolute name = false := by
  rw [isAbsolute, Text.startsWith, ← Bool.not_eq_true]
  intro hslash
  obtain ⟨rest, hrest⟩ := List.isPrefixOf_iff_prefix.mp hslash
  exact h.2.2 (hrest ▸ List.mem_append_left _ (List.mem_singleton_self _))

theorem endsWith_slash_iff {path : String} : Text.endsWith "/" path = true ↔ ∃ front, path = front ++ "/" := by
  rw [Text.endsWith, List.isSuffixOf_iff_suffix]
  constructor
  · rintro ⟨front, hfront⟩
    refine ⟨String.ofList front, String.toList_injective ?_⟩
    rw [String.toList_append, String.toList_ofList, hfront]
  · rintro ⟨front, rfl⟩
    rw [String.toList_append]
    exact List.suffix_append _ _

/-- what ends in the name of an entry does not end in a slash -/
theorem endsWith_slash_append_name (h : IsEntryName name) (front : String) :
    Text.endsWith "/" (front ++ name) = false := by
  rw [← Bool.not_eq_true, endsWith_slash_iff]
  rintro ⟨other, heq⟩
  obtain ⟨cs, c, hname⟩ := List.eq_nil_or_concat name.toList |>.resolve_left
    fun hnil => isEntryName_ne_empty h (String.toList_injective hnil)
  have hlists := congrArg String.toList heq
  rw [List.concat_eq_append] at hname
  rw [String.toList_append, String.toList_append, hname, ← List.append_assoc] at hlists
  have hlast : c = '/' := (List.append_inj' hlists rfl).2 |> List.head_eq_of_cons_eq
  refine h.2.2 ?_
  rw [hname, ← hlast]
  exact List.mem_append_right _ (List.mem_singleton_self c)

/-- a directory with one slash behind it -/
def slashed (directory : String) : String :=
  if Text.endsWith "/" directory then directory else directory ++ "/"

/-- the pieces of a directory without an empty one behind a slash at its end -/
def leading (directory : String) : List String :=
  if Text.endsWith "/" directory then (pieces directory).dropLast else pieces directory

theorem join_name (hd : directory ≠ "") (hn : IsEntryName name) : join directory name = slashed directory ++ name := by
  rw [join, isAbsolute_name hn, Bool.false_or, if_neg (by simpa using hd), slashed]
  split <;> rfl

theorem pieces_join (hd : directory ≠ "") (hn : IsEntryName name) :
    pieces (join directory name) = leading directory ++ [name] := by
  rw [join_name hd hn, slashed, leading]
  split
  · rename_i hslash
    obtain ⟨front, rfl⟩ := endsWith_slash_iff.mp hslash
    rw [pieces_slash, pieces_name hn, pieces_slash_end, List.dropLast_concat]
  · rw [pieces_slash, pieces_name hn]

theorem join_ne_empty (hd : directory ≠ "") (hn : IsEntryName name) : join directory name ≠ "" := by
  rw [join_name hd hn]
  intro h
  exact isEntryName_ne_empty hn (String.append_eq_empty_iff.mp h).2

theorem leading_join (hd : directory ≠ "") (hn : IsEntryName name) :
    leading (join directory name) = leading directory ++ [name] := by
  rw [← pieces_join hd hn, leading, join_name hd hn, endsWith_slash_append_name hn]
  rfl

theorem isAbsolute_join (hd : directory ≠ "") (hn : IsEntryName name) :
    isAbsolute (join directory name) = isAbsolute directory := by
  have hslashed : ∃ rest, join directory name = directory ++ rest := by
    rw [join_name hd hn, slashed]
    split
    · exact ⟨name, rfl⟩
    · exact ⟨"/" ++ name, String.append_assoc ..⟩
  obtain ⟨rest, hrest⟩ := hslashed
  obtain ⟨c, cs, hcs⟩ := List.exists_cons_of_ne_nil fun hnil => hd (String.toList_injective hnil)
  rw [isAbsolute, isAbsolute, Text.startsWith, Text.startsWith, hrest, String.toList_append, hcs, List.cons_append]
  rfl

/-! ### Name by name -/

theorem joinAll_cons (directory name : String) (rest : Place) :
    joinAll directory (name :: rest) = joinAll (join directory name) rest := rfl

/-- the pieces of a path that goes on from a directory are those of the directory and the names -/
theorem pieces_joinAll (hd : directory ≠ "") (hnames : ∀ name ∈ names, IsEntryName name) (hne : names ≠ []) :
    pieces (joinAll directory names) = leading directory ++ names := by
  induction names generalizing directory with
  | nil => exact absurd rfl hne
  | cons name rest ih =>
    obtain ⟨hname, hrest⟩ := List.forall_mem_cons.mp hnames
    rw [joinAll_cons]
    by_cases hnil : rest = []
    · rw [hnil]
      exact pieces_join hd hname
    · rw [ih (join_ne_empty hd hname) hrest hnil, leading_join hd hname, List.append_assoc, List.singleton_append]

theorem joinAll_ne_empty (hd : directory ≠ "") (hnames : ∀ name ∈ names, IsEntryName name) : joinAll directory names ≠ "" := by
  induction names generalizing directory with
  | nil => exact hd
  | cons name rest ih =>
    obtain ⟨hname, hrest⟩ := List.forall_mem_cons.mp hnames
    exact ih (join_ne_empty hd hname) hrest

theorem isAbsolute_joinAll (hd : directory ≠ "") (hnames : ∀ name ∈ names, IsEntryName name) :
    isAbsolute (joinAll directory names) = isAbsolute directory := by
  induction names generalizing directory with
  | nil => rfl
  | cons name rest ih =>
    obtain ⟨hname, hrest⟩ := List.forall_mem_cons.mp hnames
    rw [joinAll_cons, ih (join_ne_empty hd hname) hrest, isAbsolute_join hd hname]

/-- different names lead on to different paths -/
theorem joinAll_injective {others : Place} (hd : directory ≠ "") (hnames : ∀ name ∈ names, IsEntryName name)
    (hothers : ∀ name ∈ others, IsEntryName name) (hne : names ≠ []) (hne' : others ≠ [])
    (h : joinAll directory names = joinAll directory others) : names = others := by
  have hpieces := congrArg pieces h
  rw [pieces_joinAll hd hnames hne, pieces_joinAll hd hothers hne'] at hpieces
  exact List.append_cancel_left hpieces

end Path

/-! ## Places -/

namespace FileSystem

variable {fs : FileSystem} {path : String} {place base names : Place}

/-- the place that a path leads to -/
def place? (fs : FileSystem) (path : String) : Option Place :=
  if path = "" then none else fs.follow (fs.start path) (Path.pieces path)

theorem find?_eq (fs : FileSystem) (path : String) : fs.find? path = (fs.place? path).bind fs.root.find? := by
  rw [find?, place?]
  split
  · rfl
  · cases fs.follow (fs.start path) (Path.pieces path) <;> rfl

theorem follow_append (fs : FileSystem) (place : Place) (pieces more : List String) :
    fs.follow place (pieces ++ more) = (fs.follow place pieces).bind (fs.follow · more) := by
  induction pieces generalizing place with
  | nil => rfl
  | cons piece rest ih =>
    rw [List.cons_append, follow, follow]
    split
    · exact ih _
    · rfl

theorem step_name {name : String} (h : Path.IsEntryName name) (place : Place) : step place name = place ++ [name] := by
  rw [step, h.1, if_neg Bool.false_ne_true, if_neg h.2.1]

/-- names of entries lead on from a directory to what stands below it -/
theorem follow_names {tree found : FileTree} (hnames : ∀ name ∈ names, Path.IsEntryName name)
    (hbase : fs.root.find? base = some tree) (hf : tree.find? names = some found) :
    fs.follow base names = some (base ++ names) := by
  induction names generalizing base tree with
  | nil => rw [List.append_nil]; rfl
  | cons name rest ih =>
    obtain ⟨hname, hrest⟩ := List.forall_mem_cons.mp hnames
    cases tree with
    | file text => cases hf
    | directory entries =>
      have hdirectory : fs.hasDirectory base = true := by
        rw [hasDirectory, hbase]
        rfl
      rw [FileTree.find?_directory_cons] at hf
      obtain ⟨entry, hl, hf⟩ := Option.bind_eq_some_iff.mp hf
      have hentry : fs.root.find? (base ++ [name]) = some entry := by
        rw [FileTree.find?_append, hbase, Option.bind_some, FileTree.find?_directory_cons, hl, Option.bind_some,
          FileTree.find?_nil]
      rw [follow, if_pos hdirectory, step_name hname, ih hrest hentry hf, List.append_assoc, List.singleton_append]

theorem follow_leading (h : fs.follow place (Path.pieces path) = some base) :
    fs.follow place (Path.leading path) = some base := by
  rw [Path.leading]
  split
  · rename_i hslash
    obtain ⟨front, rfl⟩ := Path.endsWith_slash_iff.mp hslash
    rw [Path.pieces_slash_end, follow_append] at h
    rw [Path.pieces_slash_end, List.dropLast_concat]
    obtain ⟨reached, hreached, h⟩ := Option.bind_eq_some_iff.mp h
    rw [follow] at h
    split at h
    · rw [hreached, ← h]
      rfl
    · cases h
  · exact h

/-- **A path that goes on from a directory leads to what stands at these names below it.** -/
theorem place?_joinAll {tree found : FileTree} (hnames : ∀ name ∈ names, Path.IsEntryName name)
    (hplace : fs.place? path = some base) (hbase : fs.root.find? base = some tree) (hf : tree.find? names = some found) :
    fs.place? (Path.joinAll path names) = some (base ++ names) := by
  by_cases hnil : names = []
  · rw [hnil, List.append_nil]
    exact hplace
  · have hpath : path ≠ "" := by
      rintro rfl
      cases hplace
    rw [place?, if_neg hpath] at hplace
    rw [place?, if_neg (Path.joinAll_ne_empty hpath hnames), Path.pieces_joinAll hpath hnames hnil, follow_append, start,
      Path.isAbsolute_joinAll hpath hnames, ← start, follow_leading hplace, Option.bind_some, follow_names hnames hbase hf]

end FileSystem

end GraphGen

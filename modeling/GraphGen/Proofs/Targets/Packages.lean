/-
Packages and the segments of a path.

A package is meant to be what the directories below a source root are called. The root is looked for as a text, which may
begin and end inside a segment; `segmentPackage?` looks for it among the segments. Both cut a directory in front of a rest, and
the letters of a package are those of the rest, whatever segments are left out (`letters_kept`): as each root has one
letter `s`, and begins with it, packages that are the same were cut at the same place (`eq_of_cuts`).

- `RootIsWhole`: the root that is found, if any, stands there as whole segments.
- `afterRun?_of_cutOnce`: where it does, it is the first run of its segments.
- `exists_whole_of_afterRun?`: a run of segments is a root that stands as whole segments.

Main results:
- `packages_by_segments_iff`: the package of a path is that of its segments exactly when the root that is found is whole; and
  without other dots, a package has an empty component exactly when the path goes up below the root.
- `package_of_longer_segment`: where a directory has a longer name than the root, its rest becomes a component.
-/
import GraphGen.Proofs.Text.Cutting
import GraphGen.Proofs.Text.Replacing
import GraphGen.Targets.ClassItem
import Mathlib.Data.List.Count
import Mathlib.Data.List.TakeWhile

namespace GraphGen

/-! ## Packages by segments -/

/-- the segments of a path between slashes and backslashes -/
def pathSegments (path : String) : List String :=
  (path.toList.splitOnP fun c => c = '/' || c = '\\').map String.ofList

/-- what follows the first run of some segments -/
def afterRun? {α : Type} [DecidableEq α] (run : List α) : List α → Option (List α)
  | [] => none
  | segment :: rest =>
    if run.isPrefixOf (segment :: rest) then some ((segment :: rest).drop run.length) else afterRun? run rest

/-- the segments of the source roots -/
def sourceRuns : List (List String) :=
  [["src", "main", "java"], ["src", "main", "kotlin"]]

/-- the segments of a path that name its package: those of its directory behind the first run of a source root, or all -/
def packageSegments (path : String) : List String :=
  let directory := (pathSegments path).dropLast
  ((sourceRuns.findSome? (afterRun? · directory)).getD directory).filter fun segment => segment ≠ "" ∧ segment ≠ "."

/-- the package that the segments of a path name -/
def segmentPackage? (path : String) : Option String :=
  match packageSegments path with
  | [] => none
  | segments => some (String.intercalate "." segments)

/-- the directory that a package is taken from: what stands before the last slash -/
def packageDirectory (path : String) : String :=
  beforeLast '/' (Text.replace "\\" "/" path)

namespace Packages

/-! ## Runs of segments -/

section Runs

variable {α : Type} [DecidableEq α] {run segments rest : List α}

theorem afterRun?_some (h : afterRun? run segments = some rest) : ∃ front, segments = front ++ (run ++ rest) := by
  induction segments with
  | nil => cases h
  | cons segment segments ih =>
    rw [afterRun?] at h
    split at h
    · rename_i hbegins
      cases h
      obtain ⟨more, hmore⟩ := List.isPrefixOf_iff_prefix.1 hbegins
      exact ⟨[], by rw [← hmore, List.drop_left, List.nil_append]⟩
    · obtain ⟨front, rfl⟩ := ih h
      exact ⟨segment :: front, rfl⟩

theorem afterRun?_append (hrun : run ≠ []) (rest : List α) : afterRun? run (run ++ rest) = some rest := by
  obtain ⟨segment, more, rfl⟩ := List.exists_cons_of_ne_nil hrun
  have hbegins : (segment :: more).isPrefixOf (segment :: (more ++ rest)) = true :=
    List.isPrefixOf_iff_prefix.2 ⟨rest, rfl⟩
  rw [List.cons_append, afterRun?, if_pos hbegins, ← List.cons_append, List.drop_left]

theorem afterRun?_cons_of_not_prefix {segment : α} (h : ¬ run <+: segment :: segments) :
    afterRun? run (segment :: segments) = afterRun? run segments := by
  rw [afterRun?, if_neg (mt List.isPrefixOf_iff_prefix.1 h)]

/-- runs are found whatever stands for the segments -/
theorem afterRun?_map {β : Type} [DecidableEq β] {f : α → β} (hf : Function.Injective f) (run segments : List α) :
    afterRun? (run.map f) (segments.map f) = (afterRun? run segments).map (List.map f) := by
  induction segments with
  | nil => rfl
  | cons segment segments ih =>
    rw [List.map_cons, afterRun?, afterRun?, ← List.map_cons, ih]
    have hbegins : (run.map f).isPrefixOf ((segment :: segments).map f) = run.isPrefixOf (segment :: segments) := by
      rw [Bool.eq_iff_iff, List.isPrefixOf_iff_prefix, List.isPrefixOf_iff_prefix]
      exact List.prefix_map_iff_of_injective hf
    rw [hbegins, List.length_map, ← List.map_drop]
    split <;> rfl

end Runs

/-! ## Whole segments in a text -/

/-- the cut lies between segments on both sides -/
def WholeCut (before after : List Char) : Prop :=
  (before = [] ∨ before.getLast? = some '/') ∧ (after = [] ∨ after.head? = some '/')

/-- the segments of what stands behind a cut between segments -/
def segmentsBehind : List Char → List (List Char)
  | [] => []
  | _ :: rest => rest.splitOn '/'

/-- segments with slashes between them -/
def joined (segments : List (List Char)) : List Char :=
  ['/'].intercalate segments

theorem joined_append {segments more : List (List Char)} (h : segments ≠ []) (hmore : more ≠ []) :
    joined (segments ++ more) = joined segments ++ '/' :: joined more := by
  induction segments with
  | nil => exact absurd rfl h
  | cons segment segments ih =>
    unfold joined at ih ⊢
    by_cases hsegments : segments = []
    · rw [hsegments, List.intercalate_singleton, List.singleton_append, List.intercalate_cons_of_ne_nil hmore,
        List.append_assoc, List.singleton_append]
    · rw [List.cons_append, List.intercalate_cons_of_ne_nil (List.append_ne_nil_of_left_ne_nil hsegments _), ih hsegments,
        List.intercalate_cons_of_ne_nil hsegments]
      simp only [List.append_assoc, List.cons_append, List.nil_append]

/-- the segments of a root: there are some, and they have no slashes -/
structure IsRun (run : List (List Char)) : Prop where
  ne_nil : run ≠ []
  noSlash : ∀ segment ∈ run, '/' ∉ segment

variable {run : List (List Char)} {before after directory : List Char}

theorem splitOn_joined_append (hrun : IsRun run) (h : after = [] ∨ after.head? = some '/') :
    (joined run ++ after).splitOn '/' = run ++ segmentsBehind after := by
  have hsplit : (joined run).splitOn '/' = run := List.splitOn_intercalate '/' hrun.noSlash hrun.ne_nil
  rcases h with rfl | hslash
  · rw [List.append_nil, hsplit, segmentsBehind, List.append_nil]
  · obtain ⟨rest, rfl⟩ := List.head?_eq_some_iff.1 hslash
    rw [List.splitOn_append_cons_self, hsplit, segmentsBehind]

/-- a text whose segments are put together from others -/
theorem eq_of_splitOn_eq {segments : List (List Char)} (h : directory.splitOn '/' = segments) : directory = joined segments :=
  h ▸ (List.intercalate_splitOn '/').symm

theorem exists_of_prefix_splitOn (hrun : IsRun run) (h : run <+: directory.splitOn '/') :
    ∃ rest, directory = joined run ++ rest := by
  obtain ⟨rest, hrest⟩ := h
  have hjoined := eq_of_splitOn_eq hrest.symm
  by_cases hempty : rest = []
  · exact ⟨[], by rw [hjoined, hempty, List.append_nil, List.append_nil]⟩
  · exact ⟨_, hjoined.trans (joined_append hrun.ne_nil hempty)⟩

/-- **A root that stands as whole segments** is the first run of these. -/
theorem afterRun?_of_cutOnce (hrun : IsRun run) (hcut : Text.cutOnce (joined run) directory = some (before, after))
    (hwhole : WholeCut before after) : afterRun? run (directory.splitOn '/') = some (segmentsBehind after) := by
  -- the induction takes segment by segment off the front
  induction hlength : before.length using Nat.strong_induction_on generalizing before directory with
  | _ length ih =>
    have heq := Text.cutOnce_some hcut
    rcases hwhole.1 with rfl | hslash
    · rw [heq, List.nil_append, splitOn_joined_append hrun hwhole.2, afterRun?_append hrun.ne_nil]
    · obtain ⟨segment, front, rfl, hsegment⟩ := List.eq_append_cons_of_mem (List.mem_of_getLast? hslash)
      have hfront : segment ++ '/' :: front = (segment ++ ['/']) ++ front := by rw [List.append_assoc, List.singleton_append]
      rw [hfront, List.append_assoc] at heq
      have hrest : Text.cutOnce (joined run) (front ++ (joined run ++ after)) = some (front, after) :=
        Text.cutOnce_append (by rw [← heq, ← hfront, hcut])
      have hsegments : directory.splitOn '/' = segment :: (front ++ (joined run ++ after)).splitOn '/' := by
        rw [heq, List.append_assoc, List.singleton_append, List.splitOn_append_cons_self_of_not_mem hsegment]
      have hnot : ¬ run <+: segment :: (front ++ (joined run ++ after)).splitOn '/' := by
        rw [← hsegments]
        intro hbegins
        obtain ⟨rest, hrest⟩ := exists_of_prefix_splitOn hrun hbegins
        rw [hrest, Text.cutOnce_of_prefix] at hcut
        cases segment <;> cases hcut
      have hlast : front = [] ∨ front.getLast? = some '/' := by
        by_cases hempty : front = []
        · exact Or.inl hempty
        · rw [hfront, List.getLast?_append_of_ne_nil _ hempty] at hslash
          exact Or.inr hslash
      rw [hsegments, afterRun?_cons_of_not_prefix hnot]
      exact ih front.length (by subst hlength; simp; omega) hrest ⟨hlast, hwhole.2⟩ rfl

/-- **A run of segments** stands in the text as a root with a cut between segments on both sides. -/
theorem exists_whole_of_afterRun? (hrun : IsRun run) {rest : List (List Char)}
    (h : afterRun? run (directory.splitOn '/') = some rest) :
    ∃ before after, directory = before ++ (joined run ++ after) ∧ WholeCut before after ∧ rest = segmentsBehind after := by
  obtain ⟨front, hfront⟩ := afterRun?_some h
  have hjoined := eq_of_splitOn_eq hfront
  have hbehind : ∃ after, joined (run ++ rest) = joined run ++ after ∧ (after = [] ∨ after.head? = some '/') := by
    by_cases hrest : rest = []
    · exact ⟨[], by rw [hrest, List.append_nil, List.append_nil], Or.inl rfl⟩
    · exact ⟨'/' :: joined rest, joined_append hrun.ne_nil hrest, Or.inr rfl⟩
  obtain ⟨after, hafter, hslash⟩ := hbehind
  have hrest : rest = segmentsBehind after := by
    have hsegments : ∀ segment ∈ run ++ rest, '/' ∉ segment := fun segment hs =>
      Text.not_mem_of_mem_splitOn (hfront ▸ List.mem_append_right front hs)
    have hsplit : (joined (run ++ rest)).splitOn '/' = run ++ rest :=
      List.splitOn_intercalate '/' hsegments (List.append_ne_nil_of_left_ne_nil hrun.ne_nil _)
    rw [hafter, splitOn_joined_append hrun hslash] at hsplit
    exact (List.append_cancel_left hsplit).symm
  by_cases hempty : front = []
  · exact ⟨[], after, by rw [hjoined, hempty, List.nil_append, hafter, List.nil_append], ⟨Or.inl rfl, hslash⟩, hrest⟩
  · refine ⟨joined front ++ ['/'], after, ?_, ⟨Or.inr List.getLast?_concat, hslash⟩, hrest⟩
    rw [hjoined, joined_append hempty (List.append_ne_nil_of_left_ne_nil hrun.ne_nil _), hafter, List.append_assoc,
      List.singleton_append]

/-- segments have no run of a root that does not occur -/
theorem afterRun?_of_cutOnce_eq_none (hrun : IsRun run) (h : Text.cutOnce (joined run) directory = none) :
    afterRun? run (directory.splitOn '/') = none := by
  cases hrest : afterRun? run (directory.splitOn '/') with
  | none => rfl
  | some rest =>
    obtain ⟨before, after, heq, -⟩ := exists_whole_of_afterRun? hrun hrest
    exact absurd ⟨before, after, by rw [heq, List.append_assoc]⟩ (Text.cutOnce_none h)

/-! ## Packages and their letters -/

/-- the segments that name a package -/
def kept (segments : List (List Char)) : List (List Char) :=
  segments.filter fun segment => segment ≠ [] ∧ segment ≠ ['.']

/-- the package that segments name -/
def named? (segments : List (List Char)) : Option String :=
  match kept segments with
  | [] => none
  | parts => some (String.ofList (['.'].intercalate parts))

/-- how often the letter `s` occurs in segments -/
def letters (segments : List (List Char)) : Nat :=
  segments.flatten.count 's'

theorem letters_cons (segment : List Char) (segments : List (List Char)) :
    letters (segment :: segments) = segment.count 's' + letters segments := by
  rw [letters, List.flatten_cons, List.count_append, ← letters]

theorem count_intercalate {sep : Char} (h : sep ≠ 's') (segments : List (List Char)) :
    ([sep].intercalate segments).count 's' = letters segments := by
  induction segments with
  | nil => rfl
  | cons segment segments ih =>
    rw [letters_cons, ← ih]
    by_cases hsegments : segments = []
    · rw [hsegments, List.intercalate_singleton]
      rfl
    · rw [List.intercalate_cons_of_ne_nil hsegments, List.count_append, List.count_append, List.count_singleton,
        if_neg (by simpa using h), Nat.add_zero]

/-- segments that are left out have no letters -/
theorem letters_kept (segments : List (List Char)) : letters (kept segments) = letters segments := by
  induction segments with
  | nil => rfl
  | cons segment segments ih =>
    rw [letters_cons, ← ih, kept, List.filter_cons]
    by_cases hsegment : segment ≠ [] ∧ segment ≠ ['.']
    · rw [if_pos (decide_eq_true hsegment), letters_cons]
      rfl
    · rw [if_neg (mt of_decide_eq_true hsegment)]
      have hnone : segment.count 's' = 0 := by
        by_cases hempty : segment = []
        · rw [hempty, List.count_nil]
        · rw [not_not.1 fun hdot => hsegment ⟨hempty, hdot⟩]
          rfl
      rw [hnone, Nat.zero_add]
      rfl

theorem letters_splitOn (cs : List Char) : letters (cs.splitOn '/') = cs.count 's' := by
  rw [← @count_intercalate '/' (by decide), List.intercalate_splitOn]

/-- packages that are the same have the same letters -/
theorem letters_eq_of_named? {segments others : List (List Char)} (h : named? segments = named? others) :
    letters segments = letters others := by
  rw [← letters_kept segments, ← letters_kept others]
  unfold named? at h
  split at h
  · rename_i hkept
    split at h
    · rename_i hothers
      rw [hkept, hothers]
    · cases h
  · split at h
    · cases h
    · have hdotted := String.ofList_inj.1 (Option.some.inj h)
      rw [← @count_intercalate '.' (by decide), hdotted, count_intercalate (by decide)]

theorem kept_segmentsBehind (h : after = [] ∨ after.head? = some '/') :
    kept (segmentsBehind after) = kept (after.splitOn '/') := by
  rcases h with rfl | hslash
  · rfl
  · obtain ⟨rest, rfl⟩ := List.head?_eq_some_iff.1 hslash
    rw [← List.nil_append ('/' :: rest), List.splitOn_append_cons_self, kept, kept, List.filter_append]
    rfl

/-! ## The first root -/

/-- roots that begin with their only letter `s` and end with a letter, and none of which begins another -/
structure SourceRoots (runs : List (List (List Char))) : Prop where
  isRun : ∀ run ∈ runs, IsRun run
  ends : ∀ run ∈ runs, ∃ front c, joined run = front ++ [c] ∧ c ≠ '/' ∧ c ≠ '.'
  begins : ∀ run ∈ runs, (joined run).head? = some 's'
  once : ∀ run ∈ runs, (joined run).count 's' = 1
  apart : ∀ run ∈ runs, ∀ other ∈ runs, joined run <+: joined other → run = other

/-- a cut of a directory at the first root that occurs in it -/
def rootCut (runs : List (List (List Char))) (directory : List Char) : Option (List Char × List Char) :=
  runs.findSome? fun run => Text.cutOnce (joined run) directory

/-- the segments below the first root of whole segments, or all -/
def segmentsBelow (runs : List (List (List Char))) (segments : List (List Char)) : List (List Char) :=
  (runs.findSome? (afterRun? · segments)).getD segments

/-- what stands behind the first root, or all of a directory -/
def textBelow (runs : List (List (List Char))) (directory : List Char) : List Char :=
  ((rootCut runs directory).map Prod.snd).getD directory

variable {runs : List (List (List Char))}

/-- without a root there is no run -/
theorem findSome?_afterRun?_eq_none (hruns : ∀ run ∈ runs, IsRun run) (h : rootCut runs directory = none) :
    runs.findSome? (afterRun? · (directory.splitOn '/')) = none :=
  List.findSome?_eq_none_iff.2 fun run hm =>
    afterRun?_of_cutOnce_eq_none (hruns run hm) (List.findSome?_eq_none_iff.1 h run hm)

/-- the first root that occurs is the first run when it is whole -/
theorem findSome?_afterRun?_eq_some (hruns : ∀ run ∈ runs, IsRun run) (h : rootCut runs directory = some (before, after))
    (hwhole : WholeCut before after) :
    runs.findSome? (afterRun? · (directory.splitOn '/')) = some (segmentsBehind after) := by
  induction runs with
  | nil => cases h
  | cons run runs ih =>
    obtain ⟨hrun, hrest⟩ := List.forall_mem_cons.1 hruns
    rw [rootCut, List.findSome?_cons] at h
    rw [List.findSome?_cons]
    cases hcut : Text.cutOnce (joined run) directory with
    | some cut =>
      rw [hcut] at h
      cases h
      rw [afterRun?_of_cutOnce hrun hcut hwhole]
    | none =>
      rw [hcut] at h
      rw [afterRun?_of_cutOnce_eq_none hrun hcut]
      exact ih hrest h

/-- a text is cut once before the letter that only so many letters stand in front of -/
theorem eq_of_count_eq {c : Char} {front other rest more : List Char} (h : front ++ c :: rest = other ++ c :: more)
    (hcount : front.count c = other.count c) : front = other := by
  rcases List.append_eq_append_iff.1 h with ⟨middle, rfl, hmiddle⟩ | ⟨middle, rfl, hmiddle⟩
  · cases middle with
    | nil => exact (List.append_nil _).symm
    | cons d middle =>
      obtain ⟨rfl, -⟩ := List.cons.inj hmiddle
      rw [List.count_append, List.count_cons_self] at hcount
      omega
  · cases middle with
    | nil => exact List.append_nil _
    | cons d middle =>
      obtain ⟨rfl, -⟩ := List.cons.inj hmiddle
      rw [List.count_append, List.count_cons_self] at hcount
      omega

/-- a directory is cut in front of as many letters at one place only -/
theorem eq_of_cuts (hruns : SourceRoots runs) {other : List (List Char)} (hm : run ∈ runs) (ho : other ∈ runs)
    {front rest : List Char} (h : before ++ (joined run ++ after) = front ++ (joined other ++ rest))
    (hletters : after.count 's' = rest.count 's') : before = front ∧ after = rest := by
  have hcount := congrArg (List.count 's') h
  simp only [List.count_append, hruns.once run hm, hruns.once other ho, hletters, Nat.add_right_cancel_iff] at hcount
  obtain ⟨letters, hrun⟩ := List.head?_eq_some_iff.1 (hruns.begins run hm)
  obtain ⟨more, hother⟩ := List.head?_eq_some_iff.1 (hruns.begins other ho)
  have hcut : before ++ 's' :: (letters ++ after) = front ++ 's' :: (more ++ rest) := by
    rw [← List.cons_append, ← hrun, h, hother, List.cons_append]
  have hfront : before = front := eq_of_count_eq hcut hcount
  rw [hfront] at h
  have hbehind := List.append_cancel_left h
  have hsame : run = other := by
    rcases List.prefix_or_prefix_of_prefix (List.prefix_append (joined run) after)
      (hbehind ▸ List.prefix_append (joined other) rest) with hp | hp
    · exact hruns.apart run hm other ho hp
    · exact (hruns.apart other ho run hm hp).symm
  rw [hsame] at hbehind
  exact ⟨hfront, List.append_cancel_left hbehind⟩

/-- **Packages by text and by segments are the same** exactly when the first root that occurs is whole. -/
theorem named?_textBelow_iff (hruns : SourceRoots runs) (directory : List Char) :
    named? ((textBelow runs directory).splitOn '/') = named? (segmentsBelow runs (directory.splitOn '/')) ↔
      ∀ before after, rootCut runs directory = some (before, after) → WholeCut before after := by
  unfold textBelow segmentsBelow
  constructor
  · intro h before after hcut
    obtain ⟨run, hm, hrun⟩ := List.exists_of_findSome?_eq_some hcut
    have heq := Text.cutOnce_some hrun
    have hletters := letters_eq_of_named? h
    rw [hcut, letters_splitOn] at hletters
    change after.count 's' = _ at hletters
    cases hruns' : runs.findSome? (afterRun? · (directory.splitOn '/')) with
    | none =>
      -- all segments have at least the letter of the root more
      rw [hruns', Option.getD_none, letters_splitOn, heq, List.count_append, List.count_append, hruns.once run hm] at hletters
      omega
    | some rest =>
      obtain ⟨other, ho, hother⟩ := List.exists_of_findSome?_eq_some hruns'
      obtain ⟨front, back, hfront, hwhole, rfl⟩ := exists_whole_of_afterRun? (hruns.isRun other ho) hother
      rw [hruns', Option.getD_some, ← letters_kept, kept_segmentsBehind hwhole.2, letters_kept, letters_splitOn] at hletters
      obtain ⟨rfl, rfl⟩ := eq_of_cuts hruns hm ho (heq.symm.trans hfront) hletters
      exact hwhole
  · intro h
    cases hcut : rootCut runs directory with
    | none => rw [findSome?_afterRun?_eq_none hruns.isRun hcut, Option.map_none, Option.getD_none, Option.getD_none]
    | some cut =>
      have hwhole := h cut.1 cut.2 hcut
      rw [findSome?_afterRun?_eq_some hruns.isRun hcut hwhole, Option.map_some, Option.getD_some, Option.getD_some]
      unfold named?
      rw [kept_segmentsBehind hwhole.2]

/-! ## The directory of a path -/

/-- backslashes are slashes -/
theorem toList_replace_backslash (path : String) :
    (Text.replace "\\" "/" path).toList = path.toList.map fun c => if c = '\\' then '/' else c := by
  rw [Text.replace, String.toList_ofList]
  show Text.replaceFrom ['\\'] ['/'] 0 path.toList = _
  rw [Text.replaceFrom_single, List.map_eq_flatMap]
  refine List.flatMap_congr fun c _ => ?_
  split <;> rfl

theorem splitOn_map_backslash (cs : List Char) :
    (cs.map fun c => if c = '\\' then '/' else c).splitOn '/' = cs.splitOnP fun c => c = '/' || c = '\\' := by
  induction cs with
  | nil => rfl
  | cons c cs ih =>
    rw [List.map_cons, List.splitOn_cons_eq_if_modifyHead, List.splitOnP_cons_eq_if_modifyHead, ih]
    by_cases hback : c = '\\'
    · rw [if_pos hback, if_pos (beq_self_eq_true _), if_pos (by simp [hback])]
    · rw [if_neg hback]
      by_cases hslash : c = '/'
      · rw [if_pos (beq_iff_eq.2 hslash), if_pos (by simp [hslash])]
      · rw [if_neg (mt beq_iff_eq.1 hslash), if_neg (by simp [hslash, hback])]

/-- the segments before the last one are those of what stands before the last separator -/
theorem dropLast_splitOn (text : String) :
    (text.toList.splitOn '/').dropLast = (beforeLast '/' text).toList.splitOn '/' ∨
      (text.toList.splitOn '/').dropLast = [] ∧ beforeLast '/' text = "" := by
  by_cases hslash : '/' ∈ text.toList
  · obtain ⟨last, front, hreverse, hlast⟩ := List.eq_append_cons_of_mem (List.mem_reverse.2 hslash)
    have htext : text.toList = front.reverse ++ '/' :: last.reverse := by
      rw [← List.reverse_reverse text.toList, hreverse, List.reverse_append, List.reverse_cons, List.append_assoc,
        List.singleton_append]
    have hbefore : (beforeLast '/' text).toList = front.reverse := by
      have hskip : ∀ c ∈ last, (c != '/') = true := fun c hc => bne_iff_ne.2 fun he => hlast (he ▸ hc)
      rw [beforeLast, String.toList_ofList, hreverse, List.dropWhile_append_of_pos hskip,
        List.dropWhile_cons_of_neg (by simp), List.drop_one, List.tail_cons]
    left
    rw [htext, List.splitOn_append_cons_self, List.splitOn_eq_singleton (mt List.mem_reverse.1 hlast), List.dropLast_concat,
      hbefore]
  · right
    rw [List.splitOn_eq_singleton hslash]
    have hskip : ∀ c ∈ text.toList.reverse, (c != '/') = true := fun c hc =>
      bne_iff_ne.2 fun he => hslash (he ▸ List.mem_reverse.1 hc)
    rw [beforeLast, List.dropWhile_eq_nil_iff.2 hskip]
    exact ⟨rfl, rfl⟩

/-- the segments of the source roots, as characters -/
def rootRuns : List (List (List Char)) :=
  sourceRuns.map (·.map String.toList)

/-- the segments of the directory of a path -/
theorem pathSegments_dropLast (path : String) :
    (pathSegments path).dropLast = ((packageDirectory path).toList.splitOn '/').map String.ofList ∨
      (pathSegments path).dropLast = [] ∧ packageDirectory path = "" := by
  unfold pathSegments packageDirectory
  rw [← List.map_dropLast, ← splitOn_map_backslash, ← toList_replace_backslash]
  refine (dropLast_splitOn _).imp (congrArg _) (And.imp_left fun h => ?_)
  rw [h, List.map_nil]

theorem intercalate_ofList (segments : List (List Char)) :
    String.intercalate "." (segments.map String.ofList) = String.ofList (['.'].intercalate segments) := by
  have hsegments : (segments.map String.ofList).map String.toList = segments := by
    rw [List.map_map]
    exact List.map_id'' (fun _ => String.toList_ofList) _
  apply String.toList_injective
  rw [String.toList_intercalate, hsegments]
  exact String.toList_ofList.symm

/-- which segments name a package -/
theorem decide_kept (segment : List Char) :
    decide (String.ofList segment ≠ "" ∧ String.ofList segment ≠ ".") = decide (segment ≠ [] ∧ segment ≠ ['.']) := by
  have hempty : String.ofList segment = "" ↔ segment = [] := @String.ofList_inj _ []
  have hdot : String.ofList segment = "." ↔ segment = ['.'] := @String.ofList_inj _ ['.']
  rw [decide_eq_decide, Ne, Ne, hempty, hdot]

theorem afterRun?_sourceRuns (segments : List (List Char)) :
    sourceRuns.findSome? (afterRun? · (segments.map String.ofList)) =
      (rootRuns.findSome? (afterRun? · segments)).map (List.map String.ofList) := by
  have hruns : sourceRuns = rootRuns.map (List.map String.ofList) := by decide
  rw [hruns, List.findSome?_map, List.map_findSome?]
  congr 1
  funext run
  exact afterRun?_map (fun _ _ => String.ofList_injective) run segments

/-- the segments that name the package of a path, as characters -/
theorem packageSegments_eq (path : String) :
    packageSegments path =
      (kept (segmentsBelow rootRuns ((packageDirectory path).toList.splitOn '/'))).map String.ofList := by
  unfold packageSegments
  rcases pathSegments_dropLast path with hsegments | ⟨hsegments, hempty⟩
  · rw [hsegments]
    dsimp only
    rw [afterRun?_sourceRuns, Option.getD_map, List.filter_map]
    exact congrArg _ (List.filter_congr fun segment _ => decide_kept segment)
  · rw [hsegments, hempty]
    decide

/-- the package of the segments of a path, as characters -/
theorem segmentPackage?_eq (path : String) :
    segmentPackage? path = named? (segmentsBelow rootRuns ((packageDirectory path).toList.splitOn '/')) := by
  rw [segmentPackage?, packageSegments_eq, named?]
  cases kept (segmentsBelow rootRuns ((packageDirectory path).toList.splitOn '/')) with
  | nil => rfl
  | cons part parts => exact congrArg some (intercalate_ofList (part :: parts))

/-- the package of a path, as characters -/
theorem packageOf?_eq (path : String) :
    packageOf? path = named? ((belowSourceRoot (packageDirectory path)).toList.splitOn '/') := by
  have hparts : (Text.splitAll '/' (belowSourceRoot (packageDirectory path))).filter
      (fun part => !(part.isEmpty || part = ".")) =
        (kept ((belowSourceRoot (packageDirectory path)).toList.splitOn '/')).map String.ofList := by
    rw [Text.splitAll, Text.cutAll_eq_splitOn, List.filter_map]
    refine congrArg _ (List.filter_congr fun segment _ => ?_)
    rw [← decide_kept]
    have hempty : (String.ofList segment).isEmpty = decide (String.ofList segment = "") := by
      rw [Bool.eq_iff_iff, String.isEmpty_iff, decide_eq_true_iff]
    simp [hempty]
  unfold packageOf?
  dsimp only
  unfold packageDirectory at hparts ⊢
  rw [hparts, intercalate_ofList]
  unfold named?
  cases hkept : kept ((belowSourceRoot (beforeLast '/' (Text.replace "\\" "/" path))).toList.splitOn '/') with
  | nil => rfl
  | cons part parts =>
    have hpart : part ≠ [] :=
      (of_decide_eq_true (List.mem_filter.1 (hkept ▸ List.mem_cons_self : part ∈ kept _)).2).1
    refine if_neg fun hempty => hpart ?_
    have hnil := String.ofList_inj.1 (String.isEmpty_iff.1 hempty)
    cases parts with
    | nil => rwa [List.intercalate_singleton] at hnil
    | cons next parts =>
      rw [List.intercalate_cons_cons, List.append_assoc] at hnil
      exact (List.append_eq_nil_iff.1 hnil).1

/-- the first root in a directory, as characters -/
theorem findSome?_splitOnce? (directory : String) :
    sourceRoots.findSome? (fun root => Text.splitOnce? root directory) =
      (rootCut rootRuns directory.toList).map (Prod.map String.ofList String.ofList) := by
  have hroots : sourceRoots = rootRuns.map fun run => String.ofList (joined run) := by decide
  rw [hroots, List.findSome?_map, rootCut, List.map_findSome?]
  congr 1
  funext run
  show Text.splitOnce? (String.ofList (joined run)) directory = _
  rw [Text.splitOnce?, String.toList_ofList]
  rfl

theorem toList_belowSourceRoot (directory : String) :
    (belowSourceRoot directory).toList = textBelow rootRuns directory.toList := by
  rw [belowSourceRoot, findSome?_splitOnce?, textBelow]
  cases rootCut rootRuns directory.toList with
  | none => rfl
  | some cut => exact String.toList_ofList

theorem sourceRoots_rootRuns : SourceRoots rootRuns where
  isRun run hm := by
    constructor
    · revert run; decide
    · revert run; decide
  ends := by
    intro run hm
    simp only [rootRuns, sourceRuns, List.map_cons, List.map_nil, List.mem_cons, List.not_mem_nil, or_false] at hm
    rcases hm with rfl | rfl
    · exact ⟨"src/main/jav".toList, 'a', by decide⟩
    · exact ⟨"src/main/kotli".toList, 'n', by decide⟩
  begins := by decide
  once := by decide
  apart := by decide

/-! ## Components -/

/-- the only dots of segments are those of the segments for a directory and the one above it -/
def PlainDots (segments : List (List Char)) : Prop :=
  ∀ segment ∈ segments, '.' ∈ segment → segment = ['.'] ∨ segment = ['.', '.']

/-- what stands behind a root has no other dots than the directory -/
theorem plainDots_textBelow (hruns : SourceRoots runs) (h : PlainDots (directory.splitOn '/')) :
    PlainDots ((textBelow runs directory).splitOn '/') := by
  unfold textBelow
  cases hcut : rootCut runs directory with
  | none => exact h
  | some cut =>
    obtain ⟨before, after⟩ := cut
    obtain ⟨run, hm, hrun⟩ := List.exists_of_findSome?_eq_some hcut
    obtain ⟨front, c, hjoined, hslash, hdot⟩ := hruns.ends run hm
    obtain ⟨first, rest, hafter⟩ := List.exists_cons_of_ne_nil (List.splitOn_ne_nil '/' after)
    obtain ⟨pieces, start, hstart, hsplit⟩ := Text.exists_splitOn_append_cons hslash (before ++ front) hafter
    have heq : directory = (before ++ front) ++ c :: after := by
      rw [Text.cutOnce_some hrun, hjoined]
      simp only [List.append_assoc, List.singleton_append]
    rw [heq, hsplit] at h
    intro segment hs hd
    change segment ∈ after.splitOn '/' at hs
    rw [hafter] at hs
    rcases List.mem_cons.1 hs with rfl | hs
    · -- the first segment continues one that has the last letter of the root
      have hmem : start ++ segment ∈ pieces ++ (start ++ segment) :: rest := List.mem_append_right _ List.mem_cons_self
      have hletter : c ∈ start ++ segment := List.mem_append_left _ hstart
      rcases h _ hmem (List.mem_append_right _ hd) with hone | htwo
      · rw [hone] at hletter
        exact absurd (List.mem_singleton.1 hletter) hdot
      · rw [htwo] at hletter
        simp only [List.mem_cons, List.not_mem_nil, or_false, or_self] at hletter
        exact absurd hletter hdot
    · exact h segment (List.mem_append_right _ (List.mem_cons_of_mem _ hs)) hd

/-- **A component is empty** where a segment goes up, when there are no other dots. -/
theorem empty_component_iff {segments : List (List Char)} (h : PlainDots segments) {package : String}
    (hpackage : named? segments = some package) : "" ∈ Text.splitAll '.' package ↔ ['.', '.'] ∈ segments := by
  unfold named? at hpackage
  split at hpackage
  · cases hpackage
  · rename_i hne
    cases hpackage
    have hcomponents : "" ∈ Text.splitAll '.' (String.ofList (['.'].intercalate (kept segments))) ↔
        ∃ part ∈ kept segments, [] ∈ part.splitOn '.' := by
      rw [Text.splitAll, String.toList_ofList, Text.cutAll_eq_splitOn, Text.splitOn_intercalate hne,
        ← List.mem_flatMap]
      exact List.mem_map_of_injective (fun _ _ => String.ofList_injective) (a := [])
    rw [hcomponents]
    constructor
    · rintro ⟨part, hm, hempty⟩
      obtain ⟨hsegment, hkept⟩ := List.mem_filter.1 hm
      obtain ⟨hnil, hone⟩ := of_decide_eq_true hkept
      by_cases hdot : '.' ∈ part
      · obtain rfl := (h part hsegment hdot).resolve_left hone
        exact hsegment
      · rw [List.splitOn_eq_singleton hdot] at hempty
        exact absurd (List.mem_singleton.1 hempty).symm hnil
    · exact fun hm => ⟨['.', '.'], List.mem_filter.2 ⟨hm, by decide⟩, by decide⟩

end Packages

/-! ## Packages of paths -/

open Packages

/-- the root that is found in a directory, if any, stands there as whole segments -/
def RootIsWhole (directory : String) : Prop :=
  ∀ before after, sourceRoots.findSome? (fun root => Text.splitOnce? root directory) = some (before, after) →
    (before = "" ∨ Text.endsWith "/" before = true) ∧ (after = "" ∨ Text.startsWith "/" after = true)

theorem rootIsWhole_iff (directory : String) : RootIsWhole directory ↔
    ∀ before after, rootCut rootRuns directory.toList = some (before, after) → WholeCut before after := by
  have hends : ∀ before : List Char, (String.ofList before = "" ∨ Text.endsWith "/" (String.ofList before) = true) ↔
      (before = [] ∨ before.getLast? = some '/') := by
    intro before
    rw [Text.endsWith, String.toList_ofList (l := before), List.isSuffixOf_iff_suffix]
    exact or_congr (@String.ofList_inj _ []) List.singleton_suffix_iff_getLast?_eq_some
  have hstarts : ∀ after : List Char, (String.ofList after = "" ∨ Text.startsWith "/" (String.ofList after) = true) ↔
      (after = [] ∨ after.head? = some '/') := by
    intro after
    rw [Text.startsWith, String.toList_ofList (l := after), List.isPrefixOf_iff_prefix]
    exact or_congr (@String.ofList_inj _ []) List.singleton_prefix_iff_head?_eq_some
  unfold RootIsWhole WholeCut
  rw [findSome?_splitOnce?]
  cases rootCut rootRuns directory.toList with
  | none => exact iff_of_true nofun nofun
  | some cut =>
    obtain ⟨before, after⟩ := cut
    have hwhole := and_congr (hends before) (hstarts after)
    constructor
    · rintro h _ _ ⟨⟩
      exact hwhole.1 (h _ _ rfl)
    · rintro h _ _ ⟨⟩
      exact hwhole.2 (h _ _ rfl)

/-- **Packages are named by segments where the root is whole.** The package of a path is the one that its segments name exactly
when the source root that is found in its directory stands there as whole segments. And when no segment of the directory has
dots, up to the segments `.` and `..`, a component of the package is empty exactly when the path goes up by `..` below that
root. -/
theorem packages_by_segments_iff (path : String) :
    (packageOf? path = segmentPackage? path ↔ RootIsWhole (packageDirectory path)) ∧
      ((∀ segment ∈ (pathSegments path).dropLast, '.' ∈ segment.toList → segment = "." ∨ segment = "..") →
        ∀ package, packageOf? path = some package →
          ("" ∈ Text.splitAll '.' package ↔ ".." ∈ Text.splitAll '/' (belowSourceRoot (packageDirectory path)))) := by
  refine ⟨?_, fun hdots package hpackage => ?_⟩
  · rw [packageOf?_eq, segmentPackage?_eq, toList_belowSourceRoot, rootIsWhole_iff]
    exact named?_textBelow_iff sourceRoots_rootRuns _
  · have hplain : PlainDots ((packageDirectory path).toList.splitOn '/') := by
      rcases pathSegments_dropLast path with hsegments | ⟨-, hempty⟩
      · intro segment hs hdot
        rw [hsegments] at hdots
        exact (hdots _ (List.mem_map_of_mem hs) (String.toList_ofList.symm ▸ hdot)).imp
          (@String.ofList_inj _ ['.']).1 (@String.ofList_inj _ ['.', '.']).1
      · rw [hempty]
        intro segment hs hdot
        rw [List.mem_singleton.1 hs] at hdot
        exact absurd hdot List.not_mem_nil
    rw [packageOf?_eq] at hpackage
    rw [toList_belowSourceRoot] at hpackage
    rw [empty_component_iff (plainDots_textBelow sourceRoots_rootRuns hplain) hpackage, Text.splitAll, toList_belowSourceRoot,
      Text.cutAll_eq_splitOn]
    exact (List.mem_map_of_injective (fun _ _ => String.ofList_injective) (a := ['.', '.'])).symm

/-- a path that goes up before its root -/
theorem packages_by_segments_iff_above :
    (∀ segment ∈ (pathSegments "../app/src/main/kotlin/com/acme/Types.kt").dropLast, '.' ∈ segment.toList →
      segment = "." ∨ segment = "..") ∧
    packageOf? "../app/src/main/kotlin/com/acme/Types.kt" = some "com.acme" ∧ "" ∉ Text.splitAll '.' "com.acme" := by
  have hdots : ∀ segment ∈ (pathSegments "../app/src/main/kotlin/com/acme/Types.kt").dropLast, '.' ∈ segment.toList →
      segment = "." ∨ segment = ".." := by decide +kernel
  have hpackage : packageOf? "../app/src/main/kotlin/com/acme/Types.kt" = some "com.acme" := by decide +kernel
  refine ⟨hdots, hpackage, fun hempty => ?_⟩
  have hup := ((packages_by_segments_iff "../app/src/main/kotlin/com/acme/Types.kt").2 hdots _ hpackage).1 hempty
  exact absurd hup (by decide +kernel)

/-- a directory with a longer name than the root leaves its rest in the package, and a step up gives empty components -/
theorem package_of_longer_segment :
    packageOf? "gen/src/main/javafx/com/acme/Types.java" = some "fx.com.acme" ∧
      segmentPackage? "gen/src/main/javafx/com/acme/Types.java" = some "gen.src.main.javafx.com.acme" ∧
      packageOf? "../gen/Types.java" = some "...gen" ∧ "" ∈ Text.splitAll '.' "...gen" := by
  decide +kernel

end GraphGen

/-
The documents of a project.

Every entry of the documents stands for files, and the files of one entry follow on those of the entry before it
(`documentPaths_run`). Nothing looks for files that are there already.

- `FileSystem.StandsFor`: what an entry stands for: a directory for the documents below it, in the order of their places, and
  anything else for itself.
- `standsFor_documentPaths`: every entry stands for what is listed for it, and none of that is listed twice.
- `FileSystem.fragmentNames`: the names of the fragments that a file defines.
- `duplicate_reported_iff`: an index refuses documents exactly when names of fragments repeat.

Main results:
- `documents_by_entry`: a file is listed once for every entry that it belongs to, and its fragments are refused when that is
  more than one.
- `file_listed_twice`: a directory and a file in it.
-/
import GraphGen.Proofs.Fragments.Building
import GraphGen.Proofs.Project.Paths

namespace GraphGen

namespace FileSystem

/-! ## What entries stand for -/

/-- the files that are listed for an entry -/
def documentPaths (fs : FileSystem) (entry : String) : List String :=
  match fs.find? entry with
  | some (.directory entries) => documentsAmong entry ((FileTree.filesOf entries).map Prod.fst)
  | _ => [entry]

/-- what an entry stands for: a directory for the documents below it, in the order of their places, and anything else for
itself -/
inductive StandsFor (fs : FileSystem) (entry : String) : List String → Prop where
  | directory (base : Place) (places : List Place) (leads : fs.place? entry = some base)
      (there : fs.hasDirectory base = true) (ordered : places.Pairwise Place.Before)
      (exact : ∀ place, place ∈ places ↔
        isDocumentPlace place = true ∧ ∃ text, fs.root.find? (base ++ place) = some (.file text))
      (found : ∀ place ∈ places, fs.place? (Path.joinAll entry place) = some (base ++ place)) :
      StandsFor fs entry (places.map (Path.joinAll entry))
  | itself (other : fs.isDirectory entry = false) : StandsFor fs entry [entry]

variable {fs : FileSystem} {entry : String}

/-- the documents of a directory are the files below it that are named like documents -/
theorem documents_exact {base : Place} {entries : List (String × FileTree)} (hw : (FileTree.directory entries).WellFormed)
    (hbase : fs.root.find? base = some (.directory entries)) (place : Place) :
    place ∈ (((FileTree.filesOf entries).map Prod.fst).filter isDocumentPlace).mergeSort Place.notAfter ↔
      isDocumentPlace place = true ∧ ∃ text, fs.root.find? (base ++ place) = some (.file text) := by
  have hfiles (text : String) :
      (place, text) ∈ FileTree.filesOf entries ↔ fs.root.find? (base ++ place) = some (.file text) := by
    rw [FileTree.find?_append, hbase, Option.bind_some, ← FileTree.mem_files_iff hw]
    rfl
  rw [(List.mergeSort_perm _ _).mem_iff, List.mem_filter, and_comm, List.mem_map]
  refine and_congr_right fun _ => ⟨?_, ?_⟩
  · rintro ⟨⟨_, text⟩, hm, rfl⟩
    exact ⟨text, (hfiles text).mp hm⟩
  · rintro ⟨text, hf⟩
    exact ⟨(place, text), (hfiles text).mpr hf, rfl⟩

/-- **Every entry stands for what is listed for it.** -/
theorem standsFor_documentPaths (hw : fs.root.WellFormed) (entry : String) : fs.StandsFor entry (fs.documentPaths entry) := by
  unfold documentPaths
  split
  · rename_i entries hfind
    rw [find?_eq] at hfind
    obtain ⟨base, hplace, hbase⟩ := Option.bind_eq_some_iff.mp hfind
    have hdirectory := (hw.find? hbase).1
    have hexact := documents_exact hdirectory hbase
    refine .directory base _ hplace ?_ ?_ hexact fun place hp => ?_
    · rw [hasDirectory, hbase]
      rfl
    · exact pairwise_before_mergeSort ((FileTree.nodup_placesOf entries hdirectory.1 hdirectory.2).filter _)
    · obtain ⟨-, text, hf⟩ := (hexact place).mp hp
      rw [FileTree.find?_append, hbase, Option.bind_some] at hf
      exact place?_joinAll (hdirectory.find? hf).2 hplace hbase hf
  · rename_i hother
    refine .itself ?_
    rw [isDirectory]
    cases hfind : fs.find? entry with
    | none => rfl
    | some tree =>
      cases tree with
      | file text => rfl
      | directory entries => exact absurd hfind (hother entries)

theorem ne_nil_of_isDocumentPlace {place : Place} (h : isDocumentPlace place = true) : place ≠ [] := by
  rintro rfl
  cases h

/-- nothing that an entry stands for is listed twice for it -/
theorem StandsFor.nodup {paths : List String} (h : fs.StandsFor entry paths) (hw : fs.root.WellFormed) : paths.Nodup := by
  cases h with
  | itself => exact List.nodup_singleton entry
  | directory base places leads there ordered exact found =>
    have hentry : entry ≠ "" := by
      rintro rfl
      cases leads
    have hnames : ∀ place ∈ places, ∀ name ∈ place, Path.IsEntryName name := by
      intro place hp name hn
      obtain ⟨-, text, hf⟩ := (exact place).mp hp
      exact (hw.find? hf).2 name (List.mem_append_right _ hn)
    refine List.Nodup.map_on (fun place hp other ho heq => ?_) (ordered.imp And.right)
    exact Path.joinAll_injective hentry (hnames place hp) (hnames other ho)
      (ne_nil_of_isDocumentPlace ((exact place).mp hp).1) (ne_nil_of_isDocumentPlace ((exact other).mp ho).1) heq

/-- no file that an entry stands for is listed twice for it -/
theorem StandsFor.nodup_places {paths : List String} (h : fs.StandsFor entry paths) : (paths.filterMap fs.place?).Nodup := by
  cases h with
  | itself =>
    cases hplace : fs.place? entry with
    | none =>
      rw [List.filterMap_cons_none hplace]
      exact List.nodup_nil
    | some place =>
      rw [List.filterMap_cons_some hplace]
      exact List.nodup_singleton place
  | directory base places leads there ordered exact found =>
    have hplaces : (places.map (Path.joinAll entry)).filterMap fs.place? = places.map (base ++ ·) := by
      rw [List.filterMap_map, ← List.filterMap_eq_map]
      exact List.filterMap_congr found
    rw [hplaces]
    exact List.Nodup.map (List.append_right_injective base) (ordered.imp And.right)

/-- the places of the files that are listed for an entry -/
def documentPlaces (fs : FileSystem) (entry : String) : List Place :=
  (fs.documentPaths entry).filterMap fs.place?

/-! ## Reading documents -/

/-- the document of a file -/
def readDocument (fs : FileSystem) (path : String) : Except LoadError LocatedDocument :=
  match fs.read? path with
  | none => .error (.unreadable path)
  | some text => (LocatedDocument.parse path text).mapError .codegen

/-- the names of the fragments of a text that is a document -/
def fragmentNamesOf (text : String) : List String :=
  match Document.parse? text with
  | some document => (LocatedDocument.fragments ⟨"", document⟩).map (·.name)
  | none => []

/-- the names of the fragments that a file defines -/
def fragmentNames (fs : FileSystem) (file : Place) : List String :=
  match (fs.root.find? file).bind FileTree.text? with
  | some text => fragmentNamesOf text
  | none => []

/-- a document that is read has the fragments of its file -/
theorem place?_of_readDocument {path : String} {source : LocatedDocument} (h : fs.readDocument path = .ok source) :
    ∃ file, fs.place? path = some file ∧ source.fragments.map (·.name) = fs.fragmentNames file := by
  unfold readDocument at h
  rw [read?, find?_eq] at h
  cases hplace : fs.place? path with
  | none =>
    rw [hplace] at h
    cases h
  | some file =>
    rw [hplace, Option.bind_some] at h
    refine ⟨file, rfl, ?_⟩
    rw [fragmentNames]
    cases htext : (fs.root.find? file).bind FileTree.text? with
    | none =>
      rw [htext] at h
      cases h
    | some text =>
      rw [htext] at h
      dsimp only at h ⊢
      rw [LocatedDocument.parse] at h
      rw [fragmentNamesOf]
      cases hdocument : Document.parse? text with
      | none =>
        rw [hdocument] at h
        cases h
      | some document =>
        rw [hdocument] at h
        cases h
        rfl

theorem names_of_readDocuments {paths : List String} {sources : List LocatedDocument}
    (h : paths.mapM fs.readDocument = .ok sources) :
    (FragmentIndex.localFragments sources).map FragmentIndex.nameOf = (paths.filterMap fs.place?).flatMap fs.fragmentNames := by
  have hall := mapM_eq_ok_iff.mp h
  clear h
  induction hall with
  | nil => rfl
  | @cons path source paths sources hread _ ih =>
    obtain ⟨file, hplace, hnames⟩ := place?_of_readDocument hread
    rw [List.filterMap_cons_some hplace, List.flatMap_cons, ← ih, ← hnames, FragmentIndex.localFragments, List.flatMap_cons,
      List.map_append, List.map_map]
    rfl

end FileSystem

/-! ## Loading -/

theorem run_mapM {α β : Type} {action : α → Loading (StateM Session) β} {result : α → Except LoadError β} {session : Session}
    (h : ∀ x, (action x).run.run session = (result x, session)) (l : List α) :
    (l.mapM action).run.run session = (l.mapM result, session) := by
  induction l with
  | nil => rfl
  | cons x l ih =>
    rw [List.mapM_cons, List.mapM_cons, ExceptT.run_bind, StateT.run_bind, h x]
    cases result x with
    | error error => rfl
    | ok value =>
      show ((l.mapM action >>= fun values => pure (value :: values)).run.run session) = _
      rw [ExceptT.run_bind, StateT.run_bind, ih]
      cases l.mapM result <;> rfl

variable {session : Session} {project : Project}

theorem filesBelow_run (session : Session) (path : String) :
    (Session.host.filesBelow path).run session = ((session.files.filesBelow? path).elim (.error path) .ok, session) := by
  cases hplaces : session.files.filesBelow? path with
  | none =>
    simp only [Session.host, StateT.run_bind, StateT.run_get, pure_bind, hplaces]
    rfl
  | some places =>
    simp only [Session.host, StateT.run_bind, StateT.run_get, pure_bind, hplaces]
    rfl

theorem host_documentPaths_run (session : Session) (entry : String) :
    (Session.host.documentPaths entry).run.run session = (.ok (session.files.documentPaths entry), session) := by
  unfold Host.documentPaths
  rw [ExceptT.run_bind, StateT.run_bind]
  show (if session.files.isDirectory entry = true then _ else _ : Loading (StateM Session) _).run.run session = _
  rw [FileSystem.isDirectory, FileSystem.documentPaths]
  have hbelow : (ExceptT.run (Session.host.filesBelow entry : Loading (StateM Session) _)).run session =
      (.ok ((Session.host.filesBelow entry).run session).1, ((Session.host.filesBelow entry).run session).2) := rfl
  rw [filesBelow_run, FileSystem.filesBelow?] at hbelow
  cases hfind : session.files.find? entry with
  | none => rfl
  | some tree =>
    cases tree with
    | file text => rfl
    | directory entries =>
      rw [hfind] at hbelow
      rw [if_pos (show Option.any FileTree.isDirectory (some (.directory entries)) = true from rfl), ExceptT.run_bind,
        StateT.run_bind, hbelow]
      rfl

theorem host_read_run (session : Session) (path : String) :
    (Session.host.read path).run.run session =
      ((session.files.read? path).elim (.error (.unreadable path)) .ok, session) := by
  show ((match session.files.read? path with
    | some text => pure text
    | none => throw (.unreadable path) : Loading (StateM Session) String)).run.run session = _
  cases session.files.read? path <;> rfl

/-- the entries of the documents as seen from the working directory -/
def Project.documentEntries (project : Project) : List String :=
  project.config.documents.map project.locate

/-- **The files of one entry follow on those of the entry before it.** -/
theorem documentPaths_run (session : Session) (project : Project) :
    (project.documentPaths Session.host).run.run session =
      (.ok (project.documentEntries.flatMap session.files.documentPaths), session) := by
  have hfound := (run_mapM (fun path => host_documentPaths_run session (project.locate path)) project.config.documents).trans
    (congrArg (·, session) List.mapM_pure)
  unfold Project.documentPaths
  rw [ExceptT.run_bind, StateT.run_bind, hfound, Project.documentEntries, List.flatMap_map]
  rfl

theorem readDocuments_run (session : Session) (project : Project) :
    (project.readDocuments Session.host).run.run session =
      ((project.documentEntries.flatMap session.files.documentPaths).mapM session.files.readDocument, session) := by
  unfold Project.readDocuments
  rw [ExceptT.run_bind, StateT.run_bind, documentPaths_run]
  refine run_mapM (fun path => ?_) _
  rw [ExceptT.run_bind, StateT.run_bind, host_read_run, FileSystem.readDocument]
  cases session.files.read? path with
  | none => rfl
  | some text =>
    show StateT.run (ExceptT.run (_ : Loading (StateM Session) LocatedDocument)) session =
      ((LocatedDocument.parse path text).mapError LoadError.codegen, session)
    cases LocatedDocument.parse path text <;> rfl

/-! ## Listing twice -/

theorem count_flatMap_of_nodup {α β : Type} [BEq β] [LawfulBEq β] {l : List α} {f : α → List β}
    (h : ∀ x ∈ l, (f x).Nodup) (y : β) :
    (l.flatMap f).count y = l.countP fun x => y ∈ f x := by
  induction l with
  | nil => rfl
  | cons x l ih =>
    obtain ⟨hx, hl⟩ := List.forall_mem_cons.mp h
    rw [List.flatMap_cons, List.count_append, ih hl, List.countP_cons, Nat.add_comm, List.Nodup.count hx]
    simp only [decide_eq_true_eq]

/-- what distinct values stand for is distinct exactly when none that stands for anything repeats -/
theorem nodup_flatMap_iff_count {α β : Type} [BEq α] [LawfulBEq α] {l : List α} {f : α → List β} (hself : ∀ x ∈ l, (f x).Nodup)
    (hother : ∀ x ∈ l, ∀ y ∈ l, x ≠ y → (f x).Disjoint (f y)) :
    (l.flatMap f).Nodup ↔ ∀ x, f x ≠ [] → l.count x ≤ 1 := by
  rw [List.nodup_flatMap, and_iff_right hself]
  constructor
  · intro h x hne
    by_contra hcount
    have htwice : List.Sublist (List.replicate 2 x) l := List.replicate_sublist_iff.mpr (by omega)
    have hdisjoint : (f x).Disjoint (f x) := List.rel_of_pairwise_cons (h.sublist htwice) (List.mem_singleton_self x)
    exact hne (List.eq_nil_iff_forall_not_mem.mpr fun y hy => hdisjoint hy hy)
  · intro h
    clear hself
    induction l with
    | nil => exact .nil
    | cons x l ih =>
      refine .cons (fun y hy => ?_) (ih ?_ fun y hne => ?_)
      · by_cases hxy : x = y
        · subst hxy
          -- what stands there twice stands for nothing
          have hempty : f x = [] := by
            by_contra hne
            have hcount := h x hne
            rw [List.count_cons_self] at hcount
            have := List.count_pos_iff.mpr hy
            omega
          show (f x).Disjoint (f x)
          rw [hempty]
          exact List.disjoint_nil_left _
        · exact hother x List.mem_cons_self y (List.mem_cons_of_mem x hy) hxy
      · exact fun y hy z hz => hother y (List.mem_cons_of_mem x hy) z (List.mem_cons_of_mem x hz)
      · exact (List.count_le_count_cons ..).trans (h y hne)

/-- duplicates are reported exactly when names of fragments repeat -/
theorem duplicate_reported_iff (sources : List LocatedDocument) :
    (∃ name, FragmentIndex.ofDocuments sources [] = .error (.duplicateFragment name)) ↔
      ¬ ((FragmentIndex.localFragments sources).map FragmentIndex.nameOf).Nodup := by
  rcases FragmentIndex.ofDocuments_cases sources [] with ⟨before, entry, after, hsplit, -, hm, heq⟩ | ⟨index, hentries, heq⟩
  · exact iff_of_true ⟨_, heq⟩ (hsplit ▸ FragmentIndex.not_nodup_of_repeated hm)
  · refine iff_of_false ?_ (not_not.mpr (FragmentIndex.nodup_local_of_entries hentries))
    rintro ⟨name, herror⟩
    rw [heq] at herror
    cases hcycles : index.refuseCycles with
    | ok =>
      rw [hcycles] at herror
      cases herror
    | error error =>
      obtain ⟨cycle, rfl, -⟩ := FragmentIndex.refuseCycles_error hcycles
      rw [hcycles] at herror
      cases herror

/-- every file defines fragments of different names, and no two files define fragments of the same name -/
def FileSystem.DistinctFragments (fs : FileSystem) (files : List Place) : Prop :=
  (∀ file ∈ files, (fs.fragmentNames file).Nodup) ∧
    ∀ file ∈ files, ∀ other ∈ files, file ≠ other → ∀ name ∈ fs.fragmentNames file, name ∉ fs.fragmentNames other

/-- **A file is listed once for every entry that it belongs to.** The entries of the documents are listed one after the other,
each with all that it stands for. So a path, and a file, stands there as often as there are entries that stand for it, and
paths are distinct exactly when no two entries have one in common. Documents of files with different fragments are refused for
repeating a fragment exactly when a file that defines one belongs to more than one entry. -/
theorem documents_by_entry (session : Session) (project : Project) (hw : session.files.root.WellFormed) :
    let fs := session.files
    let entries := project.documentEntries
    let paths := entries.flatMap fs.documentPaths
    let files := paths.filterMap fs.place?
    (project.documentPaths Session.host).run.run session = (.ok paths, session) ∧
    (∀ entry, fs.StandsFor entry (fs.documentPaths entry)) ∧
    (∀ path, paths.count path = entries.countP fun entry => path ∈ fs.documentPaths entry) ∧
    (paths.Nodup ↔ entries.Pairwise fun entry other => (fs.documentPaths entry).Disjoint (fs.documentPaths other)) ∧
    (∀ file, files.count file = entries.countP fun entry => file ∈ fs.documentPlaces entry) ∧
    ∀ sources, ((project.readDocuments Session.host).run.run session).1 = .ok sources → fs.DistinctFragments files →
      ((∃ name, FragmentIndex.ofDocuments sources [] = .error (.duplicateFragment name)) ↔
        ∃ file, fs.fragmentNames file ≠ [] ∧ 2 ≤ entries.countP fun entry => file ∈ fs.documentPlaces entry) := by
  intro fs entries paths files
  have hstands := FileSystem.standsFor_documentPaths hw
  have hpaths : ∀ entry ∈ entries, (fs.documentPaths entry).Nodup := fun entry _ => (hstands entry).nodup hw
  have hfiles : files = entries.flatMap fs.documentPlaces := List.filterMap_flatMap ..
  have hcount : ∀ file, files.count file = entries.countP fun entry => file ∈ fs.documentPlaces entry := by
    rw [hfiles]
    exact count_flatMap_of_nodup fun entry _ => (hstands entry).nodup_places
  refine ⟨documentPaths_run session project, hstands, count_flatMap_of_nodup hpaths, ?_, hcount, ?_⟩
  · rw [List.nodup_flatMap, and_iff_right hpaths]
  · intro sources hread hdistinct
    rw [readDocuments_run] at hread
    rw [duplicate_reported_iff, FileSystem.names_of_readDocuments hread,
      nodup_flatMap_iff_count hdistinct.1 fun file hf other ho hne name hn hn' => hdistinct.2 file hf other ho hne name hn hn']
    simp only [not_forall, not_le, exists_prop]
    refine exists_congr fun file => and_congr_right fun _ => ?_
    rw [← hcount]
    exact Nat.succ_le_iff.symm

/-- the fragments of users in a directory, and one next to it -/
def userFiles : FileSystem where
  root := .directory
    [("ops", .directory [("user.graphql", .file "fragment Bits on User { id }"), ("notes.txt", .file "")]),
      ("more.gql", .file "fragment More on User { name }")]
  workingDirectory := []

/-- a session with these files -/
def userSession : Session where
  files := userFiles
  clock := default

/-- a project with these documents -/
def userProject (documents : List String) : Project where
  root := ""
  config := { schema := ["schema.graphql"], documents, config := .obj [], generates := .empty }

theorem wellFormed_userFiles : userFiles.root.WellFormed := by
  simp only [userFiles, FileTree.WellFormed, FileTree.WellFormedEntries, Path.IsEntryName, and_true]
  decide +kernel

theorem readDocuments_userFiles {documents : List String} {paths : List String}
    (hpaths : (userProject documents).documentEntries.flatMap userFiles.documentPaths = paths)
    (h : (paths.mapM userFiles.readDocument).isOk = true) :
    ∃ sources, (((userProject documents).readDocuments Session.host).run.run userSession).1 = .ok sources ∧
      paths.mapM userFiles.readDocument = .ok sources := by
  have hrun := congrArg Prod.fst (readDocuments_run userSession (userProject documents))
  rw [show userSession.files = userFiles from rfl, hpaths] at hrun
  cases hread : paths.mapM userFiles.readDocument with
  | error error =>
    rw [hread] at h
    cases h
  | ok sources => exact ⟨sources, hrun.trans hread, rfl⟩

/-- a directory and a file outside of it are listed without repetition -/
theorem documents_by_entry_user :
    userSession.files.root.WellFormed ∧
    ((userProject ["ops", "more.gql"]).documentPaths Session.host).run.run userSession =
      (.ok ["ops/user.graphql", "more.gql"], userSession) ∧
    ∃ sources, (((userProject ["ops", "more.gql"]).readDocuments Session.host).run.run userSession).1 = .ok sources ∧
      userFiles.DistinctFragments [["ops", "user.graphql"], ["more.gql"]] ∧
      ¬ ∃ name, FragmentIndex.ofDocuments sources [] = .error (.duplicateFragment name) := by
  have hlisted : (userProject ["ops", "more.gql"]).documentEntries.flatMap userFiles.documentPaths =
      ["ops/user.graphql", "more.gql"] := by decide +kernel
  obtain ⟨sources, hread, -⟩ := readDocuments_userFiles hlisted (by decide +kernel)
  have hdistinct : userFiles.DistinctFragments [["ops", "user.graphql"], ["more.gql"]] := by
    unfold FileSystem.DistinctFragments
    decide +kernel
  have hfiles : (["ops/user.graphql", "more.gql"].filterMap userFiles.place?) = [["ops", "user.graphql"], ["more.gql"]] := by
    decide +kernel
  obtain ⟨hpaths, -, -, -, hcount, hreported⟩ :=
    documents_by_entry userSession (userProject ["ops", "more.gql"]) wellFormed_userFiles
  have hsame : ((userProject ["ops", "more.gql"]).documentEntries.flatMap userSession.files.documentPaths).filterMap
      userSession.files.place? = [["ops", "user.graphql"], ["more.gql"]] :=
    (congrArg (List.filterMap userFiles.place?) hlisted).trans hfiles
  rw [hsame] at hcount hreported
  refine ⟨wellFormed_userFiles, hpaths.trans (congrArg (fun paths => (Except.ok paths, userSession)) hlisted), sources, hread,
    hdistinct, ?_⟩
  rw [hreported sources hread hdistinct]
  rintro ⟨file, -, htwice⟩
  rw [← hcount] at htwice
  have hnodup : [["ops", "user.graphql"], ["more.gql"]].Nodup := by decide +kernel
  exact absurd (List.nodup_iff_count_le_one.mp hnodup file) (by omega)

/-- **A directory and a file in it.** The file is listed twice, and its fragment is refused as a second one of its name. -/
theorem file_listed_twice :
    userSession.files.root.WellFormed ∧
    ((userProject ["ops", "ops/user.graphql"]).documentPaths Session.host).run.run userSession =
      (.ok ["ops/user.graphql", "ops/user.graphql"], userSession) ∧
    ∃ sources, (((userProject ["ops", "ops/user.graphql"]).readDocuments Session.host).run.run userSession).1 = .ok sources ∧
      userFiles.DistinctFragments [["ops", "user.graphql"]] ∧
      ∃ name, FragmentIndex.ofDocuments sources [] = .error (.duplicateFragment name) := by
  have hlisted : (userProject ["ops", "ops/user.graphql"]).documentEntries.flatMap userFiles.documentPaths =
      ["ops/user.graphql", "ops/user.graphql"] := by decide +kernel
  obtain ⟨sources, hread, hsources⟩ := readDocuments_userFiles hlisted (by decide +kernel)
  refine ⟨wellFormed_userFiles, ?_, sources, hread, ?_, ?_⟩
  · rw [documentPaths_run]
    exact congrArg (fun paths => (Except.ok paths, userSession)) hlisted
  · unfold FileSystem.DistinctFragments
    decide +kernel
  · rw [duplicate_reported_iff, FileSystem.names_of_readDocuments hsources]
    decide +kernel

end GraphGen

import Mathlib
import ImportCensus.Proofs.Census.Visit
import ImportCensus.Proofs.FileSystem.Walk

/-!
# `ImportCensus.Proofs.Census.Units`: the units that are found below a root

The units below a root are the files at the ends of chains whose names end like that of a unit. They
are found if no link breaks the walk, and each of them once, whatever circles links could form.

* `mem_findUnits_iff`: the files that are found.
* `nodup_paths_unitsOf_walkFrom`: no path comes up twice in a walk. The induction follows the walk;
  items at different entries of a directory have different paths.
* `findUnits_exhaustive`: what a search ends with, for every root.
-/

set_option autoImplicit false

namespace ImportCensus

namespace CompilationUnit

/-- The names of files with units end in the suffix. A name that is nothing but the suffix counts
too, and then the name of the unit is empty. -/
theorem isFileName_iff {name : Name} : isFileName name = true ↔ fileSuffix <:+ name :=
  List.isSuffixOf_iff_suffix

/-- The name of a unit and the suffix make the name of its file. So files with different names hold
units with different names. -/
theorem nameOfFile_eq_iff {fileName name : Text} (h : fileSuffix <:+ fileName) :
    nameOfFile fileName = name ↔ fileName = name ++ fileSuffix := by
  obtain ⟨stem, rfl⟩ := h
  have hstem : fileSuffix.isSuffixOf? (stem ++ fileSuffix) = some stem :=
    List.isSuffixOf?_eq_some_iff_append_eq.2 rfl
  rw [nameOfFile, hstem, Option.getD_some, List.append_left_inj]

end CompilationUnit

/-- The units of a walk are the files with names of units. Directories and links without a target
are none, whatever they are called. -/
theorem mem_unitsOf_iff {items : List WalkItem} {file : SourceFile} :
    file ∈ unitsOf items ↔
      .file file ∈ items ∧ CompilationUnit.isFileName file.name = true := by
  unfold unitsOf
  rw [List.mem_filterMap]
  constructor
  · rintro ⟨item, hitem, hunit⟩
    cases item with
    | file other =>
      simp only [WalkItem.unit?, Option.ite_none_right_eq_some, Option.some.injEq] at hunit
      obtain ⟨hname, rfl⟩ := hunit
      exact ⟨hitem, hname⟩
    | _ => cases hunit
  · rintro ⟨hitem, hname⟩
    exact ⟨_, hitem, if_pos hname⟩

/-- The first break of a walk is the fault of one of its items, and names the root of the walk. -/
theorem exists_broken_of_findSome?_break? {root : Text} {items : List WalkItem} {fault : Fault}
    (h : items.findSome? (WalkItem.break? root) = some fault) :
    ∃ cause, fault = .brokenTree root cause ∧ .broken cause ∈ items := by
  obtain ⟨item, hitem, hbreak⟩ := List.exists_of_findSome?_eq_some h
  cases item with
  | broken cause =>
    cases hbreak
    exact ⟨cause, rfl, hitem⟩
  | _ => cases hbreak

/-- A walk goes to its end when none of its items breaks it. -/
theorem findSome?_break?_eq_none_iff {root : Text} {items : List WalkItem} :
    items.findSome? (WalkItem.break? root) = none ↔ ∀ cause, .broken cause ∉ items := by
  rw [List.findSome?_eq_none_iff]
  constructor
  · intro h cause hmem
    cases h _ hmem
  · intro h item hitem
    cases item with
    | broken cause => exact absurd hitem (h cause)
    | _ => rfl

namespace FileSystem

variable {fs : FileSystem} {sorted : Bool} {root : Text} {location : Location}

/-! ### Each path once -/

/-- No path comes up twice among the units below a directory. The induction follows the walk. Below
one entry the paths differ by induction, and those below two entries by `path_ne_of_name_ne`, since
the names of entries differ. -/
theorem nodup_paths_unitsOf_walkFrom (here : Stop) (above : List Stop) :
    ((unitsOf (fs.walkFrom sorted here above)).map SourceFile.path).Nodup := by
  induction here, above using walkFrom.induct fs sorted with
  | case1 here above ih =>
    rw [walkFrom_eq_flatMap, unitsOf, List.filterMap_flatMap, List.map_flatMap, List.nodup_flatMap]
    constructor
    · -- At one entry there is one file, or there are the files below a directory.
      rintro ⟨name, node⟩ hmem
      unfold entryItems
      dsimp only
      cases hstep : fs.walkStep here above name node with
      | enter next => exact ih name node hmem next hstep
      | emit item =>
        dsimp only [List.filterMap_cons]
        cases item.unit? <;> simp
    · -- At different entries the paths differ in the name of the entry.
      refine List.Pairwise.imp_of_mem ?_ (pairwise_listing fs sorted here.location)
      intro a b ha hb hne path hpath hpath'
      obtain ⟨file, hfile, rfl⟩ := List.mem_map.1 hpath
      obtain ⟨file', hfile', hsame⟩ := List.mem_map.1 hpath'
      exact path_ne_of_name_ne (mem_listing.1 ha) (mem_listing.1 hb) hne
        (mem_unitsOf_iff.1 hfile).1 (mem_unitsOf_iff.1 hfile').1 hsame.symm

/-! ### The files that are found -/

/-- A root that leads to something else than a directory is refused, before anything is walked
through. -/
theorem checkRoot_of_not_directory (hroot : fs.locate root = .ok location)
    (hdir : fs.node? location ≠ some .directory) :
    fs.checkRoot root = .error (.rootNotADirectory root) := by
  unfold checkRoot
  rw [hroot]
  dsimp only
  split
  · next h => exact absurd h hdir
  · rfl

/-- A walk starts where the root leads to, if that is a directory. The path of the root is kept as
it was given, and all paths of the walk begin with it. -/
theorem checkRoot_eq_ok_iff {stop : Stop} :
    fs.checkRoot root = .ok stop ↔
      ∃ location, fs.locate root = .ok location ∧ fs.node? location = some .directory ∧
        stop = ⟨location, root⟩ := by
  cases hroot : fs.locate root with
  | error cause => cases cause <;> simp [checkRoot, hroot]
  | ok location =>
    by_cases hdir : fs.node? location = some .directory
    · simp [checkRoot, hroot, hdir, eq_comm]
    · simp [checkRoot_of_not_directory hroot hdir, hdir]

/-- Below a root that leads to a directory the search ends with the first break of the walk, or with
its units. All that follows is said of such a root. -/
theorem result_findUnits_of_directory (sorted : Bool) (hroot : fs.locate root = .ok location)
    (hdir : fs.node? location = some .directory) :
    (fs.findUnits sorted root).result =
      settle ((fs.walk sorted ⟨location, root⟩).findSome? (WalkItem.break? root))
        (unitsOf (fs.walk sorted ⟨location, root⟩)) := by
  rw [result_findUnits, checkRoot_eq_ok_iff.2 ⟨location, hroot, hdir, rfl⟩]
  rfl

/-- The files that are found are those at the ends of chains that have names of units. The search
has succeeded, so the walk has no break and `mem_walk_file_iff` applies: no chain is cut off. -/
theorem mem_findUnits_iff (hroot : fs.locate root = .ok location)
    (hdir : fs.node? location = some .directory) {files : List SourceFile}
    (h : (fs.findUnits sorted root).result = .ok files) {file : SourceFile} :
    file ∈ files ↔ ∃ names name content, EndsInFile fs location names name content ∧
      CompilationUnit.fileSuffix <:+ name ∧
      file = ⟨chainPath root (name :: names), name, content⟩ := by
  rw [result_findUnits_of_directory sorted hroot hdir, settle_eq_ok_iff] at h
  obtain ⟨hnone, rfl⟩ := h
  rw [mem_unitsOf_iff, mem_walk_file_iff (findSome?_break?_eq_none_iff.1 hnone),
    CompilationUnit.isFileName_iff]
  constructor
  · rintro ⟨⟨names, name, content, hends, rfl⟩, hname⟩
    exact ⟨names, name, content, hends, hname, rfl⟩
  · rintro ⟨names, name, content, hends, hname, rfl⟩
    exact ⟨⟨names, name, content, hends, rfl⟩, hname⟩

/-- The search below a directory fails where a chain comes to a link that `Breaks`. Which of several
such links it fails at depends on the order of listings, so the fault is not determined here. -/
theorem findUnits_fails_iff (sorted : Bool) (hroot : fs.locate root = .ok location)
    (hdir : fs.node? location = some .directory) :
    (∃ fault, (fs.findUnits sorted root).result = .error fault) ↔
      ∃ names dir above name target, Chain fs location names (dir :: above) ∧
        (name, .link target) ∈ fs.entries dir ∧ Breaks fs dir above target := by
  rw [← @exists_broken_iff fs sorted ⟨location, root⟩]
  simp only [result_findUnits_of_directory sorted hroot hdir, settle_eq_error_iff]
  constructor
  · rintro ⟨fault, hfault⟩
    obtain ⟨cause, -, hmem⟩ := exists_broken_of_findSome?_break? hfault
    exact ⟨cause, hmem⟩
  · rintro ⟨cause, hmem⟩
    refine Option.ne_none_iff_exists'.1 fun hnone => ?_
    exact findSome?_break?_eq_none_iff.1 hnone cause hmem

/-- A link without a target is at the end of one chain, and no file is found at its path. A path
leads along one chain at most, so a file found there would be the end of the same chain. -/
theorem path_not_mem_findUnits (hroot : fs.locate root = .ok location)
    (hdir : fs.node? location = some .directory) {files : List SourceFile}
    (h : (fs.findUnits sorted root).result = .ok files) {names : List Name} {dir : Location}
    {above : List Location} {name : Name} {target : Text}
    (hchain : Chain fs location names (dir :: above)) (hmem : (name, .link target) ∈ fs.entries dir)
    (hdangling : fs.locateTarget dir target = .error .notFound) :
    chainPath root (name :: names) ∉ files.map SourceFile.path := by
  intro hpath
  obtain ⟨file, hfile, hsame⟩ := List.mem_map.1 hpath
  obtain ⟨names', name', content, ⟨dir', above', node, found, hchain', hmem', hdest, -⟩, -, rfl⟩ :=
    (mem_findUnits_iff hroot hdir h).1 hfile
  -- The path of a file at that place would lead along the same chain to the same link.
  have hnames := chainPath_injective
    (List.forall_mem_cons.2 ⟨isName_of_mem_entries hmem', hchain'.isName⟩)
    (List.forall_mem_cons.2 ⟨isName_of_mem_entries hmem, hchain.isName⟩) hsame
  obtain ⟨rfl, rfl⟩ := List.cons.inj hnames
  obtain ⟨rfl, -⟩ := List.cons.inj (hchain'.unique hchain)
  cases (node?_of_mem_entries.1 hmem').symm.trans (node?_of_mem_entries.1 hmem)
  cases hdest.symm.trans hdangling

/-! ### All roots -/

/-- What a search for units ends with below a root that leads to the directory at `location`. -/
structure Exhausts (fs : FileSystem) (root : Text) (location : Location)
    (result : Except Fault (List SourceFile)) : Prop where
  /-- The walk does not go down for ever. -/
  bounded : ∃ limit, ∀ names stops, Route fs ⟨location, root⟩ names stops → names.length ≤ limit
  /-- It fails where a chain comes to a link that leads back or astray. -/
  fails_iff : (∃ fault, result = .error fault) ↔
    ∃ names dir above name target, Chain fs location names (dir :: above) ∧
      (name, .link target) ∈ fs.entries dir ∧ Breaks fs dir above target
  fault : ∀ fault, result = .error fault → ∃ cause, fault = .brokenTree root cause
  /-- Otherwise the files are those at the ends of chains that have names of units. -/
  mem_iff : ∀ files, result = .ok files → ∀ file, file ∈ files ↔
    ∃ names name content, EndsInFile fs location names name content ∧
      CompilationUnit.fileSuffix <:+ name ∧
      file = ⟨chainPath root (name :: names), name, content⟩
  nodup_paths : ∀ files, result = .ok files → (files.map SourceFile.path).Nodup
  /-- Links without a target are passed over, whatever their names. -/
  dangling : ∀ names dir above name target, Chain fs location names (dir :: above) →
    (name, .link target) ∈ fs.entries dir → fs.locateTarget dir target = .error .notFound →
    ¬ Breaks fs dir above target ∧
      ∀ files, result = .ok files → chainPath root (name :: names) ∉ files.map SourceFile.path

/-- A search below a directory does what `Exhausts` says, field by field from the lemmas above. The
bound on routes is the room that is left at the root: each step of a route takes some of it. -/
theorem exhausts_findUnits (sorted : Bool) (hroot : fs.locate root = .ok location)
    (hdir : fs.node? location = some .directory) :
    Exhausts fs root location (fs.findUnits sorted root).result where
  bounded := by
    refine ⟨fs.roomLeft ⟨location, root⟩ [], fun names stops hroute => ?_⟩
    -- There is at least the root among the directories of a route.
    cases stops with
    | nil => cases hroute
    | cons here above => exact Nat.le_of_add_right_le (hroute.length_le here above rfl)
  fails_iff := findUnits_fails_iff sorted hroot hdir
  fault fault h := by
    rw [result_findUnits_of_directory sorted hroot hdir, settle_eq_error_iff] at h
    obtain ⟨cause, hcause, -⟩ := exists_broken_of_findSome?_break? h
    exact ⟨cause, hcause⟩
  mem_iff files h file := mem_findUnits_iff hroot hdir h
  nodup_paths files h := by
    rw [result_findUnits_of_directory sorted hroot hdir, settle_eq_ok_iff] at h
    rw [h.2]
    exact nodup_paths_unitsOf_walkFrom _ _
  dangling names dir above name target hchain hmem hdangling := by
    refine ⟨fun hbreaks => ?_, fun files h =>
      path_not_mem_findUnits hroot hdir h hchain hmem hdangling⟩
    -- A link breaks a walk off in two ways, and a missing target is neither.
    cases hbreaks with
    | loop hother => cases hdangling.symm.trans hother
    | unreachable hother hcause =>
      cases hdangling.symm.trans hother
      exact hcause rfl

/-- **A search for units ends, and finds all of them or says why it cannot.** A root that does not
exist or is no directory is refused, and below any other root the search `Exhausts` the tree. -/
theorem findUnits_exhaustive (fs : FileSystem) (sorted : Bool) (root : Text) :
    (fs.locate root = .error .notFound →
      (fs.findUnits sorted root).result = .error (.rootNotFound root)) ∧
    (∀ cause, fs.locate root = .error cause → cause ≠ .notFound →
      (fs.findUnits sorted root).result = .error (.unreadable root cause)) ∧
    (∀ location, fs.locate root = .ok location → fs.node? location ≠ some .directory →
      (fs.findUnits sorted root).result = .error (.rootNotADirectory root)) ∧
    ∀ location, fs.locate root = .ok location → fs.node? location = some .directory →
      Exhausts fs root location (fs.findUnits sorted root).result := by
  -- A root that is refused is the fault of the search, since nothing is walked through.
  have hrefused (fault : Fault) (hroot : fs.checkRoot root = .error fault) :
      (fs.findUnits sorted root).result = .error fault := by
    rw [result_findUnits, hroot]
    rfl
  refine ⟨fun hroot => hrefused _ ?_, fun cause hroot hcause => hrefused _ ?_,
    fun location hroot hfile => hrefused _ ?_, fun location hroot hdir =>
      exhausts_findUnits sorted hroot hdir⟩
  · rw [checkRoot, hroot]
  · rw [checkRoot, hroot]
    cases cause with
    | notFound => exact absurd rfl hcause
    | _ => rfl
  · exact checkRoot_of_not_directory hroot hfile

/-- Two directories and a link. The search below `t` meets a unit, a link without a target, and a
directory that is named like a unit and holds a link to the unit. The search below `c` meets a link
back to where it is, and `l` is a link that leads only to itself. -/
def tangledTree : FileSystem where
  nodes :=
    [(["t".toList], .directory),
      (["A.java".toList, "t".toList], .file (.ok ByteArray.empty)),
      (["k.java".toList, "t".toList], .link "gone".toList),
      (["d.java".toList, "t".toList], .directory),
      (["E.java".toList, "d.java".toList, "t".toList], .link "../A.java".toList),
      (["c".toList], .directory),
      (["back".toList, "c".toList], .link "../c".toList),
      (["l".toList], .link "l".toList)]
  workingDirectory := some []
  distinct := by decide
  named := by decide
  storable := by decide
  standing := by simp
  rooted := by
    intro name dir h
    simp at h
    rcases h with ⟨-, rfl⟩ | ⟨-, rfl⟩ | ⟨-, rfl⟩ | ⟨-, rfl⟩ | ⟨-, rfl⟩ | ⟨-, rfl⟩ | ⟨-, rfl⟩ |
      ⟨-, rfl⟩ <;> simp

/-- What the walk from `t` meets. It is evaluated with `walkFrom_eq_flatMap` at each directory, as
the walk itself carries along a proof that it goes on to fewer places. -/
theorem walk_tangledTree :
    tangledTree.walk false ⟨["t".toList], "/t".toList⟩ =
      [.directory "/t".toList,
        .file ⟨"/t/A.java".toList, "A.java".toList, .ok ByteArray.empty⟩,
        .dangling "/t/k.java".toList,
        .directory "/t/d.java".toList,
        .file ⟨"/t/d.java/E.java".toList, "E.java".toList, .ok ByteArray.empty⟩] := by
  have hinner : tangledTree.walkFrom false ⟨["d.java".toList, "t".toList], "/t/d.java".toList⟩
      [⟨["t".toList], "/t".toList⟩] =
        [.file ⟨"/t/d.java/E.java".toList, "E.java".toList, .ok ByteArray.empty⟩] := by
    rw [walkFrom_eq_flatMap]
    cbv
  have hdirectory : tangledTree.entryItems false ⟨["t".toList], "/t".toList⟩ []
      ("d.java".toList, .directory) = [.directory "/t/d.java".toList,
        .file ⟨"/t/d.java/E.java".toList, "E.java".toList, .ok ByteArray.empty⟩] :=
    congrArg (WalkItem.directory "/t/d.java".toList :: ·) hinner
  have hlink : tangledTree.entryItems false ⟨["t".toList], "/t".toList⟩ []
      ("k.java".toList, .link "gone".toList) = [.dangling "/t/k.java".toList] := by
    cbv
  have hlisting : tangledTree.listing false ["t".toList] =
      [("A.java".toList, .file (.ok ByteArray.empty)), ("k.java".toList, .link "gone".toList),
        ("d.java".toList, .directory)] := by
    cbv
  -- What is found below `t` is what is found at its three entries.
  rw [walk, walkFrom_eq_flatMap, hlisting]
  simp only [List.flatMap_cons, List.flatMap_nil, hlink, hdirectory]
  rfl

/-- The search below `t` finds the unit and the link to it, each once, and passes over the link
without a target and the directory with the name of a unit. The search below `c` fails at the link
back. A root that is missing, one that leads in a circle and one that is a file are refused with
three different faults. -/
theorem findUnits_tangledTree :
    (∃ files, (tangledTree.findUnits false "/t".toList).result = .ok files ∧
      files.map SourceFile.path = ["/t/A.java".toList, "/t/d.java/E.java".toList] ∧
      Exhausts tangledTree "/t".toList ["t".toList] (.ok files)) ∧
    (∃ fault, (tangledTree.findUnits false "/c".toList).result = .error fault) ∧
    (tangledTree.findUnits false "/gone".toList).result =
      .error (.rootNotFound "/gone".toList) ∧
    (tangledTree.findUnits false "/l".toList).result =
      .error (.unreadable "/l".toList .tooManyLinks) ∧
    (tangledTree.findUnits false "/t/A.java".toList).result =
      .error (.rootNotADirectory "/t/A.java".toList) := by
  refine ⟨?_, ?_, ?_, ?_, ?_⟩
  · obtain ⟨-, -, -, hexhausts⟩ := findUnits_exhaustive tangledTree false "/t".toList
    have hroot : tangledTree.locate "/t".toList = .ok ["t".toList] := by cbv
    have hfound : (tangledTree.findUnits false "/t".toList).result.map (·.map SourceFile.path) =
        .ok ["/t/A.java".toList, "/t/d.java/E.java".toList] := by
      rw [result_findUnits_of_directory false hroot rfl, walk_tangledTree]
      rfl
    obtain ⟨files, hfiles, hpaths⟩ := map_eq_ok_iff.1 hfound
    exact ⟨files, hfiles, hpaths, hfiles ▸ hexhausts _ hroot rfl⟩
  · -- One step below `c` there is a link to a directory that the walk is already in.
    obtain ⟨-, -, -, hexhausts⟩ := findUnits_exhaustive tangledTree false "/c".toList
    have hroot : tangledTree.locate "/c".toList = .ok ["c".toList] := by cbv
    have hmem : ("back".toList, .link "../c".toList) ∈ tangledTree.entries ["c".toList] :=
      List.mem_singleton.2 rfl
    have hback : tangledTree.locateTarget ["c".toList] "../c".toList = .ok ["c".toList] := by cbv
    exact (hexhausts _ hroot rfl).fails_iff.2
      ⟨[], _, [], _, _, .root, hmem, .loop hback rfl List.mem_cons_self⟩
  · obtain ⟨hmissing, -⟩ := findUnits_exhaustive tangledTree false "/gone".toList
    exact hmissing (by cbv)
  · obtain ⟨-, hunreachable, -⟩ := findUnits_exhaustive tangledTree false "/l".toList
    exact hunreachable _ (by cbv) (by decide)
  · obtain ⟨-, -, hfile, -⟩ := findUnits_exhaustive tangledTree false "/t/A.java".toList
    have hnode : tangledTree.node? ["A.java".toList, "t".toList] =
        some (.file (.ok ByteArray.empty)) := rfl
    exact hfile _ (by cbv) (hnode.trans_ne (by simp))

end FileSystem

end ImportCensus

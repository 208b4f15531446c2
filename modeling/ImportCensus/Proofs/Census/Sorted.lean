import ImportCensus.Proofs.Arrangement
import ImportCensus.Proofs.Census.Order
import ImportCensus.Proofs.FileSystem.Names

/-!
# `ImportCensus.Proofs.Census.Sorted`: the order of a sorted walk

A sorted walk takes the entries of each directory in the order of their names and goes down into a
directory as soon as it comes to it. So the units that it finds are in one order as a whole: that of
their names below the root, which are compared one by one.

* `pairwise_names_walkFrom`: the units below a directory. The induction follows the walk. Units of
  different entries differ in their first name, and those of one entry are compared below it.
* `findUnits_sorted`: what this means for a search of units, however its directories are listed.
-/

set_option autoImplicit false

namespace ImportCensus

namespace FileSystem

variable {fs : FileSystem} {root : Text}

/-! ### The order of a walk -/

/-- The entries of a sorted listing are in the order of their names, and no name comes twice.
Sorting leaves no greater name in front of a smaller one, and two entries of a directory have
different names. -/
theorem pairwise_lt_sorted_listing (fs : FileSystem) (dir : Location) :
    (fs.listing true dir).Pairwise fun a b => a.1 < b.1 := by
  refine (pairwise_sorted_listing fs dir).imp₂ (fun a b hle hne => ?_)
    (pairwise_listing fs true dir)
  rcases Std.Trichotomous.rel_or_eq_or_rel_swap (r := (· < ·)) (a := a.1) (b := b.1) with h | h | h
  · exact h
  · exact absurd h hne
  · exact absurd h hle

/-- The names of a unit below a directory begin with that of the entry at which it was met. So units
of different entries are told apart by their first names. -/
theorem exists_namesBelow_eq_cons {sorted : Bool} {here : Stop} {above : List Stop} {name : Name}
    {node : Node} {file : SourceFile} (hmem : (name, node) ∈ fs.entries here.location)
    (h : .file file ∈ fs.entryItems sorted here above (name, node)) :
    ∃ rest, Path.namesBelow here.path file.path = name :: rest := by
  have hname := isName_of_mem_entries hmem
  rcases file_of_mem_entryItems hmem h with hpath | ⟨next, -, hpath, hbelow⟩
  · exact ⟨[], by rw [hpath, namesBelow_join _ hname]⟩
  · have hbegin := join_isPrefix_of_mem_walkFrom hbelow
    rw [hpath] at hbegin
    exact ⟨_, namesBelow_eq_cons hname hbegin⟩

/-- The units of a sorted walk are in the order of their names below its directory. The induction
follows the walk. Units of one entry have the same first name, and behind it they are in order by
induction. Units of two entries are in the order of the first names. -/
theorem pairwise_names_walkFrom (here : Stop) (above : List Stop) :
    (unitsOf (fs.walkFrom true here above)).Pairwise fun a b =>
      Path.namesBelow here.path a.path < Path.namesBelow here.path b.path := by
  induction here, above using walkFrom.induct fs true with
  | case1 here above ih =>
    rw [walkFrom_eq_flatMap, unitsOf, List.filterMap_flatMap, List.pairwise_flatMap]
    constructor
    · rintro ⟨name, node⟩ hmem
      have hentry := mem_listing.1 hmem
      have hmeets := meets_walkStep above hentry
      unfold entryItems
      dsimp only
      cases hstep : fs.walkStep here above name node with
      | emit item =>
        -- One item is one unit at most.
        dsimp only [List.filterMap_cons]
        cases item.unit? <;> simp
      | enter next =>
        rw [hstep] at hmeets
        have hpath : next.path = Path.join here.path name := by cases hmeets; rfl
        have hnames {file : SourceFile}
            (hfile : file ∈ unitsOf (fs.walkFrom true next (here :: above))) :
            Path.namesBelow here.path file.path = name :: Path.namesBelow next.path file.path := by
          have hbegin := join_isPrefix_of_mem_walkFrom (mem_unitsOf_iff.1 hfile).1
          rw [hpath] at hbegin ⊢
          exact namesBelow_eq_cons (isName_of_mem_entries hentry) hbegin
        refine (ih name node hmem next hstep).imp_of_mem fun ha hb hlt => ?_
        rw [hnames ha, hnames hb]
        exact List.cons_lt_cons_iff.2 (.inr ⟨rfl, hlt⟩)
    · refine (pairwise_lt_sorted_listing fs here.location).imp_of_mem ?_
      intro a b ha hb hlt file hfile file' hfile'
      obtain ⟨rest, hnames⟩ :=
        exists_namesBelow_eq_cons (mem_listing.1 ha) (mem_unitsOf_iff.1 hfile).1
      obtain ⟨rest', hnames'⟩ :=
        exists_namesBelow_eq_cons (mem_listing.1 hb) (mem_unitsOf_iff.1 hfile').1
      rw [hnames, hnames']
      exact List.cons_lt_cons_iff.2 (.inl hlt)

/-! ### The order of a search -/

/-- The path is that of a unit: it leads from the root along a chain that ends in its file. -/
def LeadsToUnit (fs : FileSystem) (root path : Text) : Prop :=
  ∃ location names name content, fs.locate root = .ok location ∧
    EndsInFile fs location names name content ∧ CompilationUnit.fileSuffix <:+ name ∧
    path = chainPath root (name :: names)

/-- The names of a file at the end of a chain are proper, that of the file included. -/
theorem EndsInFile.isName {location : Location} {names : List Name} {name : Name}
    {content : Content} (h : EndsInFile fs location names name content) :
    ∀ n ∈ name :: names, isName n = true := by
  obtain ⟨dir, above, node, found, hchain, hmem, -, -⟩ := h
  exact List.forall_mem_cons.2 ⟨isName_of_mem_entries hmem, hchain.isName⟩

/-- The units of a search in the order of the names on their chains. -/
structure InNameOrder (fs : FileSystem) (root : Text) (files : List SourceFile) : Prop where
  mem_iff : ∀ path, path ∈ files.map SourceFile.path ↔ LeadsToUnit fs root path
  /-- Paths are compared by the names of the chains that they lead along. -/
  names_eq : ∀ location names name content, EndsInFile fs location names name content →
    Path.namesBelow root (chainPath root (name :: names)) = (name :: names).reverse
  pairwise : (files.map SourceFile.path).Pairwise (Path.IsBefore root)
  nodup : (files.map SourceFile.path).Nodup
  /-- There is no other arrangement of the same paths in this order. -/
  unique : ∀ paths, (∀ path, path ∈ paths ↔ LeadsToUnit fs root path) →
    paths.Pairwise (Path.IsBefore root) → paths = files.map SourceFile.path
  /-- A directory is walked through before a unit beside it that has its name, though the paths
  below it come later as texts. -/
  sibling : ∀ path ∈ files.map SourceFile.path, ∀ other ∈ files.map SourceFile.path,
    ∀ front dir next below, Path.namesBelow root path = front ++ dir :: next :: below →
      Path.namesBelow root other = front ++ [dir ++ CompilationUnit.fileSuffix] →
      [path, other].Sublist (files.map SourceFile.path) ∧ other.bytes < path.bytes

/-- The paths of units go on from the root with their names. Such paths can be compared name by
name. -/
theorem LeadsToUnit.goesOn {path : Text} (h : LeadsToUnit fs root path) : GoesOn root path := by
  obtain ⟨location, names, name, content, -, hends, -, rfl⟩ := h
  exact (namesBelow_chainPath root hends.isName).2

/-- What a sorted search finds is in the order of the names. That a path is found is a matter of
chains, and that paths are in order a matter of the walk. The other fields follow from these two. -/
theorem inNameOrder_of_findUnits {files : List SourceFile}
    (h : (fs.findUnits true root).result = .ok files) : InNameOrder fs root files := by
  obtain ⟨location, hroot, hdir⟩ := directory_of_findUnits h
  have hmem (path : Text) : path ∈ files.map SourceFile.path ↔ LeadsToUnit fs root path := by
    rw [List.mem_map]
    constructor
    · rintro ⟨file, hfile, rfl⟩
      obtain ⟨names, name, content, hends, hname, rfl⟩ := (mem_findUnits_iff hroot hdir h).1 hfile
      exact ⟨location, names, name, content, hroot, hends, hname, rfl⟩
    · rintro ⟨location', names, name, content, hroot', hends, hname, rfl⟩
      cases hroot.symm.trans hroot'
      exact ⟨_, (mem_findUnits_iff hroot hdir h).2 ⟨names, name, content, hends, hname, rfl⟩, rfl⟩
  -- The sorted walk meets files in the order of their names below the root.
  have hpairwise : (files.map SourceFile.path).Pairwise (Path.IsBefore root) := by
    rw [result_findUnits_of_directory true hroot hdir, settle_eq_ok_iff] at h
    rw [h.2, List.pairwise_map]
    exact (pairwise_names_walkFrom ⟨location, root⟩ []).imp Path.isBefore_iff.2
  exact
    -- Everything else follows from membership and this order, since the order is strict.
    { mem_iff := hmem
      names_eq := fun _ names name _ hends => (namesBelow_chainPath root hends.isName).1
      pairwise := hpairwise
      nodup := (exhausts_findUnits true hroot hdir).nodup_paths files h
      unique := fun paths hpaths hsorted =>
        eq_of_pairwise_of_mem_iff Path.IsBefore.irrefl (fun _ _ => Path.IsBefore.asymm) hsorted
          hpairwise fun path => (hpaths path).trans (hmem path).symm
      sibling := fun path hpath other hother front dir next below hnames hnames' => by
        obtain ⟨hbefore, hbytes⟩ := isBefore_of_sibling ((hmem path).1 hpath).goesOn
          ((hmem other).1 hother).goesOn hnames hnames'
        exact ⟨pair_sublist_of_pairwise Path.IsBefore.irrefl (fun _ _ => Path.IsBefore.asymm)
          hpairwise hpath hother hbefore, hbytes⟩ }

/-- **A sorted search finds its units in the order of the names on their chains.** Where it
succeeds, what it finds is `InNameOrder`. In whichever order the directories of the same tree are
listed, it finds the same units in that order, and a search that does not sort finds them as well:
sorting what it finds arranges them in the same way. -/
theorem findUnits_sorted {files : List SourceFile}
    (h : (fs.findUnits true root).result = .ok files) :
    InNameOrder fs root files ∧
      ∀ other : FileSystem, other.nodes.Perm fs.nodes →
        other.workingDirectory = fs.workingDirectory →
        (other.findUnits true root).result = .ok files ∧
          ∃ found, (other.findUnits false root).result = .ok found ∧
            found.mergeSort (fun a b => !decide (Path.IsBefore root b.path a.path)) = files := by
  have horder := inNameOrder_of_findUnits h
  have hfiles : files.Pairwise fun a b => Path.IsBefore root a.path b.path :=
    List.pairwise_map.1 horder.pairwise
  refine ⟨horder, fun other hperm hstart => ?_⟩
  have hfind (sorted : Bool) :=
    exists_findUnits_perm (node?_eq_of_perm hperm) hstart (entries_perm hperm) sorted h
  constructor
  · -- The units that the other sorted search finds are in the same order.
    obtain ⟨files', hfind', hsame⟩ := hfind true
    have hfiles' := List.pairwise_map.1 (inNameOrder_of_findUnits hfind').pairwise
    rw [hfind', hsame.eq_of_pairwise
      (fun _ _ _ _ hab hba => absurd hba (Path.IsBefore.asymm hab)) hfiles hfiles']
  · -- Sorting what the other search finds brings it into the only order there is.
    obtain ⟨found, hfound, hsame⟩ := hfind false
    exact ⟨found, hfound, mergeSort_eq_of_pairwise
      (fun a b : SourceFile => Path.IsBefore root a.path b.path)
      (fun _ _ => Path.IsBefore.asymm) (fun _ _ _ => Path.not_isBefore_trans) hfiles hsame.symm⟩

/-- A directory beside a unit of its name, which is listed first. -/
def siblingTree : FileSystem where
  nodes :=
    [(["a.java".toList], .file (.ok ByteArray.empty)),
      (["a".toList], .directory),
      (["X.java".toList, "a".toList], .file (.ok ByteArray.empty))]
  workingDirectory := some []
  distinct := by decide
  named := by decide
  storable := by decide
  standing := by simp
  rooted := by
    intro name dir h
    simp at h
    rcases h with h | h | ⟨-, rfl⟩
    all_goals first | exact .inl h.2 | exact .inr (by simp)

/-- The host lists the unit first, and a sorted search finds the unit in the directory first. As
texts the two paths are the other way round, since a dot comes before a slash. -/
theorem findUnits_siblingTree :
    ∃ files, (siblingTree.findUnits true ['/']).result = .ok files ∧
      files.map SourceFile.path = ["/a/X.java".toList, "/a.java".toList] ∧
      InNameOrder siblingTree ['/'] files ∧
      ∃ found, (siblingTree.findUnits false ['/']).result = .ok found ∧
        found.map SourceFile.path = ["/a.java".toList, "/a/X.java".toList] ∧
        found.mergeSort (fun a b => !decide (Path.IsBefore ['/'] b.path a.path)) = files := by
  have hsorted : (siblingTree.findUnits true ['/']).result.map (·.map SourceFile.path) =
      .ok ["/a/X.java".toList, "/a.java".toList] := by cbv
  have hlisted : (siblingTree.findUnits false ['/']).result.map (·.map SourceFile.path) =
      .ok ["/a.java".toList, "/a/X.java".toList] := by cbv
  obtain ⟨files, hfiles, hpaths⟩ := map_eq_ok_iff.1 hsorted
  obtain ⟨found, hfound, hpaths'⟩ := map_eq_ok_iff.1 hlisted
  obtain ⟨horder, hany⟩ := findUnits_sorted hfiles
  obtain ⟨-, found', hfound', hsame⟩ := hany siblingTree (List.Perm.refl _) rfl
  cases hfound.symm.trans hfound'
  exact ⟨files, hfiles, hpaths, horder, found, hfound, hpaths', hsame⟩

end FileSystem

end ImportCensus

import ImportCensus.Proofs.Census.Modes
import ImportCensus.Proofs.Census.Units

/-!
# `ImportCensus.Proofs.Census.Classes`: the classes of a tree are those that it declares

`Declares` says which names a tree declares, and `IsReadable` when they can be collected. Neither
speaks of listings, of their order or of a walk.

* `result_collectClasses_eq_ok_iff`: classes are collected from readable trees, and they are those
  that the tree declares.
* `collectClasses_exact`: so neither the order of listings nor the mode has a say in them.
-/

set_option autoImplicit false

namespace ImportCensus

/-! ### Sets and units -/

namespace ClassSet

/-- A unit adds its class if it has a package, and otherwise nothing. -/
@[simp] theorem mem_insertUnit {set : ClassSet} {unit : CompilationUnit} {name : Text} :
    name ∈ set.insertUnit unit ↔
      (unit.hasPackage = true ∧ name = unit.qualifiedName) ∨ name ∈ set := by
  unfold insertUnit
  split <;> simp_all

/-- A set that units are added to has their classes, besides those that it had. The order in which
they are added is not in the statement, and that is all that makes the classes of a tree independent
of it. -/
theorem mem_foldl_insertUnit {units : List CompilationUnit} {set : ClassSet} {name : Text} :
    name ∈ units.foldl insertUnit set ↔
      (∃ unit ∈ units, unit.hasPackage = true ∧ name = unit.qualifiedName) ∨ name ∈ set := by
  induction units generalizing set with
  | nil => simp
  | cons unit units ih =>
    rw [List.foldl_cons, ih, mem_insertUnit, List.exists_mem_cons_iff, or_left_comm, or_assoc]

/-- The size of a set is the number of its members. The names are in increasing order, so none of
them is counted twice. -/
theorem size_eq_ncard (set : ClassSet) : set.size = {name | name ∈ set}.ncard := by
  have hnodup : set.names.Nodup := by
    refine set.increasing.imp ?_
    rintro name _ hless rfl
    exact List.lt_irrefl name hless
  have hmembers : {name | name ∈ set} = (set.names.toFinset : Set Text) := by
    rw [List.coe_toFinset]
    rfl
  rw [hmembers, Set.ncard_coe_finset, List.toFinset_card_of_nodup hnodup]
  rfl

end ClassSet

namespace SourceFile

/-- A file has no fault when its bytes can be had, even if they are no text. -/
theorem fault?_eq_none_iff {file : SourceFile} :
    file.fault? = none ↔ ∃ bytes, file.content = .ok bytes := by
  unfold fault?
  cases file.content <;> simp

/-- A file adds a class when it has a text and the text a package. Its name is that of the package
and of the unit, with a dot between them. -/
theorem declaredUnit_iff {file : SourceFile} {name : Text} :
    file.declaredUnit.hasPackage = true ∧ name = file.declaredUnit.qualifiedName ↔
      ∃ bytes source, file.content = .ok bytes ∧ Text.decode? bytes = some source ∧
        Header.packageOf source ≠ [] ∧ name = Header.packageOf source ++ '.' :: file.unitName := by
  unfold declaredUnit source?
  cases file.content with
  | error cause => simp [CompilationUnit.hasPackage]
  | ok bytes =>
    cases hsource : Text.decode? bytes with
    | none => simp [hsource, CompilationUnit.hasPackage]
    | some source => simp [hsource, CompilationUnit.hasPackage, CompilationUnit.qualifiedName]

end SourceFile

namespace FileSystem

variable {fs : FileSystem} {root : Text}

/-! ### Trees and what they declare -/

/-- The tree below a root declares a class: a chain ends in a file of the unit's name, with a text
that has a package. -/
def Declares (fs : FileSystem) (root name : Text) : Prop :=
  ∃ location names unit bytes source, fs.locate root = .ok location ∧
    EndsInFile fs location names (unit ++ CompilationUnit.fileSuffix) (.ok bytes) ∧
    Text.decode? bytes = some source ∧ Header.packageOf source ≠ [] ∧
    name = Header.packageOf source ++ '.' :: unit

/-- A tree in which all units can be found and read. -/
structure IsReadable (fs : FileSystem) (root : Text) (location : Location) : Prop where
  locate_eq : fs.locate root = .ok location
  directory : fs.node? location = some .directory
  unbroken : ¬ ∃ names dir above name target, Chain fs location names (dir :: above) ∧
    (name, .link target) ∈ fs.entries dir ∧ Breaks fs dir above target
  readable : ∀ names name content, EndsInFile fs location names name content →
    CompilationUnit.fileSuffix <:+ name → ∃ bytes, content = .ok bytes

/-- Units are found below a root only if it is a directory. So a search that has succeeded gives the
location at which the chains of its tree begin. -/
theorem directory_of_findUnits {sorted : Bool} {files : List SourceFile}
    (h : (fs.findUnits sorted root).result = .ok files) :
    ∃ location, fs.locate root = .ok location ∧ fs.node? location = some .directory := by
  rw [result_findUnits] at h
  cases hroot : fs.checkRoot root with
  | error fault =>
    rw [hroot] at h
    cases h
  | ok stop =>
    obtain ⟨location, hlocate, hdir, -⟩ := checkRoot_eq_ok_iff.1 hroot
    exact ⟨location, hlocate, hdir⟩

/-- The files that are found make the set of the classes that the tree declares. Each file at the
end of a chain is found, and its unit declares what `Declares` says of that chain. -/
theorem mem_foldl_declaredUnit_iff {location : Location} {sorted : Bool} {files : List SourceFile}
    (hroot : fs.locate root = .ok location) (hdir : fs.node? location = some .directory)
    (h : (fs.findUnits sorted root).result = .ok files) (name : Text) :
    name ∈ (files.map SourceFile.declaredUnit).foldl ClassSet.insertUnit .empty ↔
      Declares fs root name := by
  simp only [ClassSet.mem_foldl_insertUnit, List.mem_map, exists_exists_and_eq_and,
    ClassSet.not_mem_empty, or_false, SourceFile.declaredUnit_iff]
  constructor
  · rintro ⟨file, hfile, bytes, source, hcontent, hdecode, hpackage, rfl⟩
    -- A file of the list is at the end of a chain, and its name gives back that of its unit.
    obtain ⟨names, name, content, hends, hsuffix, rfl⟩ := (mem_findUnits_iff hroot hdir h).1 hfile
    have hname := (CompilationUnit.nameOfFile_eq_iff hsuffix).1 rfl
    cases hcontent
    rw [hname] at hends
    exact ⟨location, names, _, bytes, source, hroot, hends, hdecode, hpackage, rfl⟩
  · rintro ⟨location', names, unit, bytes, source, hroot', hends, hdecode, hpackage, rfl⟩
    -- The root is where it was found before, so the chain leads to a file of the list.
    cases hroot.symm.trans hroot'
    have hsuffix := List.suffix_append unit CompilationUnit.fileSuffix
    refine ⟨_, (mem_findUnits_iff hroot hdir h).2 ⟨names, _, _, hends, hsuffix, rfl⟩, bytes, source,
      rfl, hdecode, hpackage, ?_⟩
    rw [SourceFile.unitName, (CompilationUnit.nameOfFile_eq_iff hsuffix).2 rfl]

/-- The units of a tree can be found and read exactly when it is readable. On the left stand chains
and what they lead to, on the right what a search comes back with. -/
theorem exists_isReadable_iff {sorted : Bool} :
    (∃ location, IsReadable fs root location) ↔
      ∃ files, (fs.findUnits sorted root).result = .ok files ∧
        ∀ file ∈ files, file.fault? = none := by
  constructor
  · rintro ⟨location, hroot, hdir, hunbroken, hreadable⟩
    -- Where no entry breaks the walk off, the search ends with files.
    rw [← findUnits_fails_iff sorted hroot hdir] at hunbroken
    cases hfind : (fs.findUnits sorted root).result with
    | error fault => exact absurd ⟨fault, hfind⟩ hunbroken
    | ok files =>
      refine ⟨files, rfl, fun file hfile => ?_⟩
      obtain ⟨names, name, content, hends, hsuffix, rfl⟩ :=
        (mem_findUnits_iff hroot hdir hfind).1 hfile
      exact SourceFile.fault?_eq_none_iff.2 (hreadable names name content hends hsuffix)
  · rintro ⟨files, hfind, hread⟩
    -- A search that ends with files has begun at a directory.
    obtain ⟨location, hroot, hdir⟩ := directory_of_findUnits hfind
    refine ⟨location, hroot, hdir, ?_, fun names name content hends hsuffix => ?_⟩
    · rw [← findUnits_fails_iff sorted hroot hdir, hfind]
      rintro ⟨fault, hfault⟩
      cases hfault
    · have hfile := (mem_findUnits_iff hroot hdir hfind).2 ⟨names, _, _, hends, hsuffix, rfl⟩
      exact SourceFile.fault?_eq_none_iff.1 (hread _ hfile)

/-- Classes are collected in readable trees, and then they are those that the tree declares. Neither
side mentions the mode or the order of listings, so they have no say. Two sets with the same members
are equal, which makes this an equivalence. -/
theorem result_collectClasses_eq_ok_iff {options : CensusOptions} {classes : ClassSet} :
    (fs.collectClasses options root).result = .ok classes ↔
      (∃ location, IsReadable fs root location) ∧
        ∀ name, name ∈ classes ↔ Declares fs root name := by
  rw [@exists_isReadable_iff fs root options.sorted]
  refine (modesAgree_collectClasses fs options.sorted root).eq_ok_iff.trans ⟨?_, ?_⟩
  · rintro ⟨files, hfind, hread, rfl⟩
    obtain ⟨location, hroot, hdir⟩ := directory_of_findUnits hfind
    exact ⟨⟨files, hfind, hread⟩, mem_foldl_declaredUnit_iff hroot hdir hfind⟩
  · rintro ⟨⟨files, hfind, hread⟩, hmembers⟩
    obtain ⟨location, hroot, hdir⟩ := directory_of_findUnits hfind
    refine ⟨files, hfind, hread, ClassSet.ext_mem fun name => ?_⟩
    rw [hmembers, mem_foldl_declaredUnit_iff hroot hdir hfind]

/-! ### The order of listings -/

section

variable {other : FileSystem} (hsame : ∀ location, other.node? location = fs.node? location)
  (hstart : other.workingDirectory = fs.workingDirectory)

include hsame hstart

/-- A class that is declared stays declared when directories are listed in another order. What a
chain leads to and where the root is depend on what stands at the locations only. -/
theorem Declares.congr {name : Text} (h : Declares fs root name) : Declares other root name := by
  obtain ⟨location, names, unit, bytes, source, hroot, hends, hrest⟩ := h
  exact ⟨location, names, unit, bytes, source, by rwa [locate_congr hsame hstart],
    hends.congr hsame, hrest⟩

/-- A tree also stays readable then. The conditions that nothing breaks and that everything can be
read are carried back from the other file system, so the equality of nodes is used in both
directions. -/
theorem IsReadable.congr {location : Location} (h : IsReadable fs root location) :
    IsReadable other root location where
  locate_eq := by rw [locate_congr hsame hstart, h.locate_eq]
  directory := by rw [hsame, h.directory]
  unbroken := by
    have hback (location : Location) := (hsame location).symm
    rintro ⟨names, dir, above, name, target, hchain, hmem, hbreaks⟩
    exact h.unbroken ⟨names, dir, above, name, target, hchain.congr hback,
      (mem_entries_congr hback).2 hmem, hbreaks.congr hback⟩
  readable names name content hends :=
    h.readable names name content (hends.congr fun location => (hsame location).symm)

/-- Classes are collected in one file system just as in another with the same nodes, whatever the
options are. Both properties of `result_collectClasses_eq_ok_iff` carry over. -/
theorem result_collectClasses_congr {options options' : CensusOptions} {classes : ClassSet}
    (h : (fs.collectClasses options root).result = .ok classes) :
    (other.collectClasses options' root).result = .ok classes := by
  have hback (location : Location) := (hsame location).symm
  obtain ⟨⟨location, hreadable⟩, hmembers⟩ := result_collectClasses_eq_ok_iff.1 h
  refine result_collectClasses_eq_ok_iff.2
    ⟨⟨location, hreadable.congr hsame hstart⟩, fun name => ?_⟩
  rw [hmembers]
  exact ⟨fun hname => hname.congr hsame hstart, fun hname => hname.congr hback hstart.symm⟩

end

/-- **The classes of a tree are those that it declares.** Their number is that of the different
names. They are collected from any listing of the same nodes, sorted or not, in one pass or in
phases, in whichever order the phases read the units; and if one of these ways fails, all do. -/
theorem collectClasses_exact (fs : FileSystem) (options : CensusOptions) (root : Text) :
    (∀ classes, (fs.collectClasses options root).result = .ok classes →
      (∀ name, name ∈ classes ↔ Declares fs root name) ∧
        classes.size = {name | Declares fs root name}.ncard) ∧
    (∀ other : FileSystem, other.nodes.Perm fs.nodes →
      other.workingDirectory = fs.workingDirectory → ∀ options' classes,
        (other.collectClasses options' root).result = .ok classes ↔
          (fs.collectClasses options root).result = .ok classes) ∧
    ∀ sorted outcome, InPhases fs sorted root SourceFile.unit
      (fun units => units.foldl ClassSet.insertUnit .empty) outcome → ∀ classes,
        outcome = .ok classes ↔ (fs.collectClasses options root).result = .ok classes := by
  refine ⟨fun classes h => ?_, fun other hperm hstart options' classes => ?_,
    fun sorted outcome houtcome classes => ?_⟩
  · have hmembers := (result_collectClasses_eq_ok_iff.1 h).2
    refine ⟨hmembers, ?_⟩
    rw [classes.size_eq_ncard]
    simp only [hmembers]
  · have hsame := node?_eq_of_perm hperm
    exact ⟨result_collectClasses_congr (fun location => (hsame location).symm) hstart.symm,
      result_collectClasses_congr hsame hstart⟩
  · rw [(modesAgree_collectClasses fs sorted root).ok_iff outcome houtcome]
    exact ⟨result_collectClasses_congr (fun _ => rfl) rfl,
      result_collectClasses_congr (fun _ => rfl) rfl⟩

/-- A tree in which two units declare the same class and a third one declares none. -/
def twiceDeclared : FileSystem where
  nodes :=
    [(["A.java".toList], .file (.ok (Text.encode "package p;".toList))),
      (["d".toList], .directory),
      (["A.java".toList, "d".toList], .file (.ok (Text.encode "package p ;".toList))),
      (["E.java".toList], .file (.ok (Text.encode "import p.A;".toList)))]
  workingDirectory := some []
  distinct := by decide
  named := by decide
  storable := by decide
  standing := by simp
  rooted := by
    intro name dir h
    simp at h
    rcases h with ⟨-, rfl⟩ | ⟨-, rfl⟩ | ⟨-, rfl⟩ | ⟨-, rfl⟩ <;> simp

/-- The same tree with its directories listed from the end. -/
def twiceDeclaredBackwards : FileSystem where
  nodes := twiceDeclared.nodes.reverse
  workingDirectory := some []
  distinct := by decide
  named := by decide
  storable := by decide
  standing := by simp
  rooted := by
    intro name dir h
    simp [twiceDeclared] at h
    rcases h with ⟨-, rfl⟩ | ⟨-, rfl⟩ | ⟨-, rfl⟩ | ⟨-, rfl⟩ <;> simp [twiceDeclared]

/-- The class that two units declare is one class, and the unit without a package adds none. The
tree that is listed backwards and read in one pass has the same set, and so have phases over sorted
listings. -/
theorem collectClasses_twiceDeclared :
    ∃ classes, (twiceDeclared.collectClasses ⟨false, true⟩ ['/']).result = .ok classes ∧
      (∀ name, Declares twiceDeclared ['/'] name ↔ name = "p.A".toList) ∧
      {name | Declares twiceDeclared ['/'] name}.ncard = 1 ∧
      (twiceDeclaredBackwards.collectClasses ⟨false, false⟩ ['/']).result = .ok classes ∧
      (twiceDeclared.collectClasses ⟨true, true⟩ ['/']).result = .ok classes := by
  obtain ⟨hdeclared, hlistings, hphases⟩ :=
    collectClasses_exact twiceDeclared ⟨false, true⟩ ['/']
  have hnames : (twiceDeclared.collectClasses ⟨false, true⟩ ['/']).result.map ClassSet.names =
      .ok ["p.A".toList] := by
    cbv
  obtain ⟨classes, hclasses, hone⟩ := map_eq_ok_iff.1 hnames
  obtain ⟨hmembers, hsize⟩ := hdeclared classes hclasses
  -- The result in phases is one that the phases may have, so the theorem speaks of it.
  have hdone := (modesAgree_collectClasses twiceDeclared true ['/']).inPhases
  refine ⟨classes, hclasses, fun name => ?_, ?_, ?_, (hphases _ _ hdone classes).2 hclasses⟩
  · rw [← hmembers]
    show name ∈ classes.names ↔ _
    rw [hone, List.mem_singleton]
  · rw [← hsize, ClassSet.size, hone]
    rfl
  · exact (hlistings twiceDeclaredBackwards (List.reverse_perm _) rfl _ classes).2 hclasses

end FileSystem

end ImportCensus

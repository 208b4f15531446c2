import ImportCensus.Proofs.Census.Classes
import ImportCensus.Proofs.Census.Irrelevant
import ImportCensus.Proofs.Report.Stats
import ImportCensus.Report.Row

/-!
# `ImportCensus.Proofs.Census.Order`: what the order of listings has a say in

Two file systems with the same nodes in other orders have the same trees, listed in other orders. A
walk meets the same items in each of them, so a census gathers the same usages, in another order.

* `exists_findUnits_perm`: the units that are found, in another order.
* `exists_gathers_perm`: so the maps of two trees gather histories of the same usages. Where the
  walk of one tree fails, that of the other fails too, though perhaps at another entry.
* `census_reordered`: two censuses are `Reordered`, and with sorted listings they are the same.
-/

set_option autoImplicit false

namespace ImportCensus

/-- Two censuses that differ in the order of discovery only. -/
structure Reordered (census other : Census) : Prop where
  classes_eq : other.classes = census.classes
  /-- The same dependencies, each with the same consumers. -/
  usages : UsageMap.Rearranged census.usages other.usages
  stats_eq : UsageStats.compute other.classes other.usages =
    UsageStats.compute census.classes census.usages
  /-- The most used classes are used as often, whichever of several stand in the list. -/
  mostUsed_eq : ∀ limit, (other.usages.mostUsed limit).map Prod.snd =
    (census.usages.mostUsed limit).map Prod.snd
  /-- The rows below the titles are the same. -/
  rows : ∀ sourceLabel targetLabel, ∃ data otherData,
    census.usages.rows sourceLabel targetLabel = .header :: data ∧
      other.usages.rows sourceLabel targetLabel = .header :: otherData ∧ data.Perm otherData

/-- Censuses of the same classes whose usages are those of histories with the same usages. Numbers
do not depend on the order of a history, and rows are put in another order with it. -/
theorem reordered_of_gathers {classes : ClassSet} {map other : UsageMap}
    {history otherHistory : List Usage} (h : map.Gathers history)
    (hother : other.Gathers otherHistory) (hperm : history.Perm otherHistory) :
    Reordered ⟨classes, map⟩ ⟨classes, other⟩ where
  classes_eq := rfl
  usages := h.rearranged hother hperm
  stats_eq := UsageMap.stats_eq_of_perm hother h hperm.symm classes
  mostUsed_eq := UsageMap.map_snd_mostUsed_eq_of_perm hother h hperm.symm
  rows sourceLabel targetLabel := by
    have husages : map.usages.Perm other.usages :=
      h.usages_perm.trans (hperm.trans hother.usages_perm.symm)
    exact ⟨_, _, rfl, rfl, husages.map _⟩

namespace FileSystem

variable {fs other : FileSystem} {root : Text}

section

variable (hsame : ∀ location, other.node? location = fs.node? location)
  (hstart : other.workingDirectory = fs.workingDirectory)
  (hentries : ∀ dir, (other.entries dir).Perm (fs.entries dir))

include hsame hstart hentries

/-- The units that are found below a root, when its directories are listed in other orders. The walk
meets the same items in another order, so it breaks in both or in neither. -/
theorem exists_findUnits_perm {sorted : Bool} (sorted' : Bool) {files : List SourceFile}
    (h : (fs.findUnits sorted root).result = .ok files) :
    ∃ files', (other.findUnits sorted' root).result = .ok files' ∧ files.Perm files' := by
  obtain ⟨location, hroot, hdir⟩ := directory_of_findUnits h
  rw [result_findUnits_of_directory sorted hroot hdir, settle_eq_ok_iff] at h
  obtain ⟨hunbroken, rfl⟩ := h
  have hroot' : other.locate root = .ok location := by rw [locate_congr hsame hstart, hroot]
  have hdir' : other.node? location = some .directory := by rw [hsame, hdir]
  have hwalk : (fs.walk sorted ⟨location, root⟩).Perm (other.walk sorted' ⟨location, root⟩) :=
    (walkFrom_perm hsame hentries sorted sorted' ⟨location, root⟩ []).cons _
  refine ⟨_, ?_, hwalk.filterMap _⟩
  rw [result_findUnits_of_directory sorted' hroot' hdir', settle_eq_ok_iff]
  refine ⟨?_, rfl⟩
  -- The items at which a walk breaks are items of the other walk as well.
  rw [findSome?_break?_eq_none_iff] at hunbroken ⊢
  exact fun cause hmem => hunbroken cause (hwalk.mem_iff.2 hmem)

/-- The usages below a root, when its directories are listed in other orders. Both maps gather the
usages of the same units, in the order in which these were found. -/
theorem exists_gathers_perm {options : CensusOptions} (options' : CensusOptions) {scanner : Scanner}
    {known : ClassSet} {map : UsageMap}
    (h : (fs.gatherUsages options scanner known root).result = .ok map) :
    ∃ map' history history', (other.gatherUsages options' scanner known root).result = .ok map' ∧
      map.Gathers history ∧ map'.Gathers history' ∧ history.Perm history' := by
  obtain ⟨files, hfind, hread, rfl⟩ :=
    (modesAgree_gatherUsages fs options.sorted scanner known root).eq_ok_iff.1 h
  obtain ⟨files', hfind', hperm⟩ :=
    exists_findUnits_perm hsame hstart hentries options'.sorted hfind
  refine ⟨_, _, _, ?_, UsageMap.gathers_recordAll _, UsageMap.gathers_recordAll _,
    (hperm.map (SourceFile.foundUsages scanner known)).flatten⟩
  exact (modesAgree_gatherUsages other options'.sorted scanner known root).eq_ok_iff.2
    ⟨files', hfind', fun file hfile => hread file (hperm.mem_iff.2 hfile), rfl⟩

/-- A census that succeeds does so whatever the order of listings is, and the two are reordered. The
classes are even the same, so the usages are looked for among the same known classes. -/
theorem exists_census_reordered {options : CensusOptions} (options' : CensusOptions)
    {source target : Text} {census : Census}
    (h : (fs.census options source target).result = .ok census) :
    ∃ census', (other.census options' source target).result = .ok census' ∧
      Reordered census census' := by
  obtain ⟨hclasses, husages⟩ := result_census_eq_ok_iff.1 h
  have hclasses' : (other.collectClasses options' source).result = .ok census.classes :=
    result_collectClasses_congr hsame hstart hclasses
  obtain ⟨map', history, history', husages', hgathers, hgathers', hperm⟩ :=
    exists_gathers_perm hsame hstart hentries options' husages
  exact ⟨⟨census.classes, map'⟩, result_census_eq_ok_iff.2 ⟨hclasses', husages'⟩,
    reordered_of_gathers hgathers hgathers' hperm⟩

/-- With sorted listings both walks are the same. There is one sorted order of the entries of each
directory, and so the order of the host has no influence left. -/
theorem meetSame_of_perm (root : Text) : MeetSame fs other true root := by
  have hlisting (dir : Location) : other.listing true dir = fs.listing true dir :=
    eq_of_sorted_of_perm (pairwise_listing other true dir) (pairwise_sorted_listing other dir)
      (pairwise_sorted_listing fs dir) (listing_perm hentries true true dir)
  -- Every location is shared, so there is nothing else that would have to be irrelevant.
  have hshares : Shares fs other fun _ => true :=
    { node?_eq := fun location _ => hsame location
      locateTarget_eq := fun dir _ target _ _ _ => locateTarget_congr hsame dir target
      shared_target := fun _ _ _ _ _ _ _ _ => rfl
      irrelevant := nofun
      irrelevant_other := nofun }
  exact hshares.meetSame (fun dir _ => by rw [hlisting]) (locate_congr hsame hstart root)
    fun _ _ => rfl

end

/-- **The order of listings has a say in the order of the report only.** Take the same nodes in
another order. A census of the one succeeds exactly when one of the other does, in whichever modes
they are taken, and then the two are `Reordered`. With sorted listings they have the same result. -/
theorem census_reordered (hperm : other.nodes.Perm fs.nodes)
    (hstart : other.workingDirectory = fs.workingDirectory) (source target : Text) :
    (∀ options options',
      ((∃ census, (fs.census options source target).result = .ok census) ↔
        ∃ census, (other.census options' source target).result = .ok census) ∧
      ∀ census census', (fs.census options source target).result = .ok census →
        (other.census options' source target).result = .ok census' → Reordered census census') ∧
    ∀ parallel, (other.census ⟨true, parallel⟩ source target).result =
      (fs.census ⟨true, parallel⟩ source target).result := by
  have hsame := node?_eq_of_perm hperm
  have hentries := entries_perm hperm
  -- The two file systems can change places, so one direction gives the other.
  refine ⟨fun options options' => ⟨⟨?_, ?_⟩, fun census census' h h' => ?_⟩, fun parallel => ?_⟩
  · rintro ⟨census, h⟩
    obtain ⟨census', h', -⟩ := exists_census_reordered hsame hstart hentries options' h
    exact ⟨census', h'⟩
  · rintro ⟨census, h⟩
    obtain ⟨census', h', -⟩ := exists_census_reordered (fun location => (hsame location).symm)
      hstart.symm (fun dir => (hentries dir).symm) options h
    exact ⟨census', h'⟩
  · obtain ⟨found, hfound, hreordered⟩ :=
      exists_census_reordered hsame hstart hentries options' h
    cases hfound.symm.trans h'
    exact hreordered
  · exact census_eq_of_meetSame (meetSame_of_perm hsame hstart hentries source)
      (meetSame_of_perm hsame hstart hentries target)

/-- A tree with a class and two units that use it. -/
def listedForwards : FileSystem where
  nodes :=
    [(["A.java".toList], .file (.ok (Text.encode "package p;".toList))),
      (["D.java".toList], .file (.ok (Text.encode "import p.A;".toList))),
      (["E.java".toList], .file (.ok (Text.encode "import p.A;".toList)))]
  workingDirectory := some []
  distinct := by decide
  named := by decide
  storable := by decide
  standing := by simp
  rooted := by
    intro name dir h
    simp at h
    rcases h with h | h | h <;> exact .inl h.2

/-- The same tree with its directory listed from the end. -/
def listedBackwards : FileSystem where
  nodes := listedForwards.nodes.reverse
  workingDirectory := some []
  distinct := by decide
  named := by decide
  storable := by decide
  standing := by simp
  rooted := by
    intro name dir h
    simp [listedForwards] at h
    rcases h with h | h | h <;> exact .inl h.2

/-- The class has the same two consumers in both trees, in different orders, as long as listings are
not sorted. With sorted listings the results are equal. -/
theorem census_listedBackwards :
    ∃ census census',
      (listedForwards.census ⟨false, false⟩ ['/'] ['/']).result = .ok census ∧
      (listedBackwards.census ⟨false, true⟩ ['/'] ['/']).result = .ok census' ∧
      census.usages.entries = [⟨"p.A".toList, [".D".toList, ".E".toList]⟩] ∧
      census'.usages.entries = [⟨"p.A".toList, [".E".toList, ".D".toList]⟩] ∧
      Reordered census census' ∧
      (listedBackwards.census ⟨true, true⟩ ['/'] ['/']).result =
        (listedForwards.census ⟨true, true⟩ ['/'] ['/']).result := by
  have hperm : listedBackwards.nodes.Perm listedForwards.nodes := List.reverse_perm _
  obtain ⟨hany, hsorted⟩ := census_reordered hperm rfl ['/'] ['/']
  have hforwards : (listedForwards.census ⟨false, false⟩ ['/'] ['/']).result.map
      (·.usages.entries) = .ok [⟨"p.A".toList, [".D".toList, ".E".toList]⟩] := by cbv
  have hbackwards : (listedBackwards.census ⟨false, true⟩ ['/'] ['/']).result.map
      (·.usages.entries) = .ok [⟨"p.A".toList, [".E".toList, ".D".toList]⟩] := by cbv
  obtain ⟨census, h, hentries⟩ := map_eq_ok_iff.1 hforwards
  obtain ⟨census', h', hentries'⟩ := map_eq_ok_iff.1 hbackwards
  exact ⟨census, census', h, h', hentries, hentries', (hany _ _).2 census census' h h',
    hsorted true⟩

end FileSystem

end ImportCensus

import ImportCensus.Proofs.Census.Restriction
import ImportCensus.Proofs.Report.Csv
import ImportCensus.Proofs.Report.Json
import ImportCensus.Proofs.Run

/-!
# `ImportCensus.Proofs.Report.Totals`: the numbers of a report agree

The number of usages is counted in several ways: the map adds up the consumers of its entries, the
report has rows, its two formats have records and objects, and the summary lists the most used
classes. A map that was gathered from a tree has one history, and all these numbers are its length.

* `known_of_gatherUsages`: only known classes are used. The scan of a file asks for membership, and
  no other step brings in a name.
* `size_le_of_known`: so no more classes are used than there are.
* `tallies_of_census`: all numbers of a census. `report_totals` adds those that a run prints.
-/

set_option autoImplicit false

namespace ImportCensus

/-! ### The written report -/

namespace Csv

/-- The records of a report are the titles and one record for each row below them. They are counted
in the written text, so no field has split a record or swallowed the next one. -/
theorem decode?_toCsv_rows (map : UsageMap) (sourceLabel targetLabel : Text) :
    ∃ records, decode? (ReportRow.toCsv (map.rows sourceLabel targetLabel)) =
        some (ReportRow.header.fields :: records) ∧
      records.length = map.usageCount := by
  have hform := textForm_toCsv (map.rows sourceLabel targetLabel)
  refine ⟨_, decode?_of_textForm hform, ?_⟩
  rw [List.length_map, List.length_map, UsageMap.length_usages]

end Csv

namespace Json

/-- The objects of a report are as many as its usages. The titles are no object, but the keys in
each of them. -/
theorem decode?_toJson_rows (map : UsageMap) (sourceLabel targetLabel : Text) :
    ∃ objects, decode? (ReportRow.toJson (map.rows sourceLabel targetLabel)) = some objects ∧
      objects.length = map.usageCount := by
  refine ⟨_, decode?_toJson _, ?_⟩
  rw [List.length_map, List.length_drop, UsageMap.length_rows, Nat.add_sub_cancel]

end Json

/-! ### Used classes -/

namespace UsageMap

/-- Distinct dependencies that are all known are no more than the known classes. No dependency has
two entries, so each takes a name of its own from the set. -/
theorem Gathers.size_le_of_known {map : UsageMap} {history : List Usage} (h : map.Gathers history)
    {classes : ClassSet} (hknown : ∀ entry ∈ map.entries, entry.dependency ∈ classes) :
    map.size ≤ classes.size := by
  have hsub : map.entries.map UsageEntry.dependency ⊆ classes.names := by
    intro name hname
    obtain ⟨entry, hentry, rfl⟩ := List.mem_map.1 hname
    exact hknown entry hentry
  have hlength := (List.subperm_of_subset h.nodup_keys hsub).length_le
  rwa [List.length_map] at hlength

/-- The rows below the titles name as many classes as the map has entries: every entry has a row,
and a row names the dependency of its usage. -/
theorem Gathers.card_usedClass {map : UsageMap} {history : List Usage} (h : map.Gathers history)
    (sourceLabel targetLabel : Text) :
    (((map.rows sourceLabel targetLabel).drop 1).map ReportRow.usedClass).toFinset.card =
      map.size := by
  have hrows : ((map.rows sourceLabel targetLabel).drop 1).map ReportRow.usedClass =
      map.usages.map Usage.dependency := by
    show (map.usages.map _).map _ = _
    rw [List.map_map]
    rfl
  rw [hrows, List.toFinset_eq_of_perm _ _ (h.usages_perm.map Usage.dependency), h.size_eq]

end UsageMap

namespace FileSystem

variable {fs : FileSystem} {options : CensusOptions} {source target : Text} {census : Census}

/-- Only known classes are used: what is left if all other dependencies are taken out is everything
that was found. So this follows from how the usages of a tree depend on the known classes. -/
theorem known_of_gatherUsages {root : Text} {known : ClassSet} {map : UsageMap}
    (h : (fs.gatherUsages options Header.usagesIn known root).result = .ok map) :
    ∀ entry ∈ map.entries, entry.dependency ∈ known := by
  have hrefl : ∀ name ∈ known, name ∈ known := fun _ hname => hname
  have hall := result_gatherUsages_of_subset fs options root hrefl
  rw [h] at hall
  have hkept : map.entries.filter (known.contains ·.dependency) = map.entries :=
    (Except.ok.inj hall).symm
  intro entry hentry
  exact ClassSet.contains_iff.1 (List.filter_eq_self.1 hkept entry hentry)

/-! ### All numbers -/

/-- The numbers that a census of a target tree leads to, and the rows of its report. Each field
compares two ways of counting, so together they say that all of these numbers agree. -/
structure Tallies (fs : FileSystem) (options : CensusOptions) (target : Text) (census : Census)
    (stats : UsageStats) (rows : List ReportRow) : Prop where
  /-- Only classes of the source tree are used, so no more of them than there are. -/
  known : ∀ entry ∈ census.usages.entries, entry.dependency ∈ census.classes
  usedClasses_le : stats.usedClasses ≤ stats.classes
  usedClasses_eq_zero : stats.classes = 0 → stats.usedClasses = 0
  percent_le : stats.usedClasses * 100 ≤ 100 * stats.classes
  /-- The row of titles is always there. -/
  rows_ne_nil : rows ≠ []
  usages_eq : rows.length - 1 = stats.usages
  /-- All units are read, and together they have as many usages. -/
  scans : ∃ (files : List SourceFile) (found : List (List Usage)),
    (fs.findUnits options.sorted target).result = .ok files ∧
    files.map (fun file => (file.usages Header.usagesIn census.classes).result) = found.map .ok ∧
    (found.map List.length).sum = rows.length - 1
  /-- Behind the titles there is a record for each usage. -/
  csv : ∃ records, Csv.decode? (ReportRow.toCsv rows) =
      some (ReportRow.header.fields :: records) ∧ records.length = rows.length - 1
  json : ∃ objects, Json.decode? (ReportRow.toJson rows) = some objects ∧
    objects.length = rows.length - 1
  usedClasses_eq : stats.usedClasses =
    ((rows.drop 1).map ReportRow.usedClass).toFinset.card
  /-- If all used classes are listed, their numbers add up to all usages. -/
  mostUsed_sum : ∀ limit, stats.usedClasses ≤ limit →
    ((census.usages.mostUsed limit).map Prod.snd).sum = stats.usages

/-- All numbers of a census agree. The map has a history, which is the usages of all units one after
the other, and each of the numbers is read off this history. -/
theorem tallies_of_census (h : (fs.census options source target).result = .ok census)
    (sourceLabel targetLabel : Text) :
    Tallies fs options target census (.compute census.classes census.usages)
      (census.usages.rows sourceLabel targetLabel) := by
  obtain ⟨-, husages⟩ := result_census_eq_ok_iff.1 h
  have hknown := known_of_gatherUsages husages
  obtain ⟨files, hfind, hread, hmap⟩ :=
    (modesAgree_gatherUsages fs options.sorted Header.usagesIn census.classes target).eq_ok_iff.1
      husages
  -- The map was recorded from the usages of all units, so this is its history.
  have hgathers : census.usages.Gathers _ := hmap ▸ UsageMap.gathers_recordAll _
  have hsize : census.usages.size ≤ census.classes.size := hgathers.size_le_of_known hknown
  have hrows : (census.usages.rows sourceLabel targetLabel).length - 1 =
      census.usages.usageCount := by
    rw [UsageMap.length_rows, Nat.add_sub_cancel]
  exact
    { known := hknown
      usedClasses_le := hsize
      usedClasses_eq_zero := fun hnone => Nat.eq_zero_of_le_zero (hnone ▸ hsize)
      percent_le := by
        rw [Nat.mul_comm]
        exact Nat.mul_le_mul_left 100 hsize
      rows_ne_nil := List.cons_ne_nil _ _
      usages_eq := hrows
      scans := by
        refine ⟨files, _, hfind, (map_result_eq_map_ok_iff (SourceFile.result_usages _ _)).2
          ⟨hread, rfl⟩, ?_⟩
        rw [hrows, hgathers.usageCount_eq, List.length_flatten]
      csv := by
        rw [hrows]
        exact Csv.decode?_toCsv_rows census.usages sourceLabel targetLabel
      json := by
        rw [hrows]
        exact Json.decode?_toJson_rows census.usages sourceLabel targetLabel
      usedClasses_eq := (hgathers.card_usedClass sourceLabel targetLabel).symm
      mostUsed_sum := fun limit hlimit => UsageMap.sum_mostUsed hlimit }

/-- **The report, its totals and the summary agree.** Whatever the two trees, the options and the
labels are, a census leads to numbers that agree with the rows of its report and with what is read
back from both formats; and no more classes are used than the source tree has. A run prints these
numbers. -/
theorem report_totals (fs : FileSystem) :
    (∀ options source target census, (fs.census options source target).result = .ok census →
      ∀ sourceLabel targetLabel, Tallies fs options target census
        (.compute census.classes census.usages) (census.usages.rows sourceLabel targetLabel)) ∧
    ∀ request printout, (fs.run request).printout = some printout →
      ∃ settings source target census, HasRoots fs request settings source target ∧
        (fs.census settings.censusOptions source target).result = .ok census ∧
        printout.usageCount =
          (census.usages.rows (rootLabel source) (rootLabel target)).length - 1 ∧
        printout.summary.stats = .compute census.classes census.usages ∧
        printout.summary.mostUsed = census.usages.mostUsed request.top := by
  refine ⟨fun options source target census h => tallies_of_census h, fun request printout h => ?_⟩
  obtain ⟨log, hrun⟩ := fs.run_eq request
  rw [hrun] at h
  cases hstages : fs.stages request with
  | error fault =>
    rw [hstages] at h
    cases h
  | ok value =>
    obtain ⟨written, found⟩ := value
    rw [hstages] at h
    obtain ⟨settings, source, target, census, hreports⟩ := reports_of_stages hstages
    -- A quiet run prints nothing, so this one was not quiet.
    obtain rfl : found = printout := by
      cases hquiet : request.quiet with
      | true => simp [hquiet] at h
      | false => simpa [hquiet] using h
    refine ⟨settings, source, target, census, hreports.roots, hreports.census_eq, ?_, ?_, ?_⟩ <;>
      rw [hreports.printout_eq]
    · rw [UsageMap.length_rows, Nat.add_sub_cancel]
      rfl
    · rfl
    · rfl

/-- In the sample project one class is declared, used and imported once. All numbers of its report
are one, and a run that writes the report prints them. -/
theorem report_totals_sampleProject :
    ∃ census printout, (sampleProject.census ⟨false, true⟩ ['s'] ['s']).result = .ok census ∧
      Tallies sampleProject ⟨false, true⟩ ['s'] census ⟨1, 1, 1⟩
        (census.usages.rows (rootLabel ['s']) (rootLabel ['s'])) ∧
      (census.usages.rows (rootLabel ['s']) (rootLabel ['s'])).length = 2 ∧
      (sampleProject.run (reportingTo "q.yml".toList)).printout = some printout ∧
      printout.usageCount = 1 ∧ printout.summary.stats = ⟨1, 1, 1⟩ ∧
      printout.summary.mostUsed = [("p.A".toList, 1)] := by
  obtain ⟨htallies, hprints⟩ := report_totals sampleProject
  have hnumbers : (sampleProject.census ⟨false, true⟩ ['s'] ['s']).result.map (fun census =>
      (UsageStats.compute census.classes census.usages, census.usages.mostUsed 10)) =
        .ok (⟨1, 1, 1⟩, [("p.A".toList, 1)]) := by
    cbv
  obtain ⟨census, hcensus, hpair⟩ := map_eq_ok_iff.1 hnumbers
  obtain ⟨hstats, hmostUsed⟩ := Prod.mk.inj hpair
  have htally := htallies _ _ _ census hcensus (rootLabel ['s']) (rootLabel ['s'])
  rw [hstats] at htally
  obtain ⟨written, printout, hstages⟩ := stages_reportingTo hcensus
  obtain ⟨log, hrun⟩ := sampleProject.run_eq (reportingTo "q.yml".toList)
  have hprintout : (sampleProject.run (reportingTo "q.yml".toList)).printout =
      some printout := by
    rw [hrun, hstages]
    rfl
  -- What the theorem says of some settings and some census holds of those of this run.
  obtain ⟨settings, source, target, census', hroots, hcensus', husages, hstats', hmost⟩ :=
    hprints _ _ hprintout
  obtain ⟨rfl, rfl, rfl⟩ := (hasRoots_reportingTo "q.yml".toList).unique hroots
  cases hcensus.symm.trans hcensus'
  have hrows : (census.usages.rows (rootLabel ['s']) (rootLabel ['s'])).length - 1 = 1 :=
    htally.usages_eq
  exact ⟨census, printout, hcensus, htally, by omega, hprintout, husages.trans hrows,
    hstats'.trans hstats, hmost.trans hmostUsed⟩

end FileSystem

end ImportCensus

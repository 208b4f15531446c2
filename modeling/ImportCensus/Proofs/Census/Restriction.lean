import Mathlib
import ImportCensus.Proofs.Census.Items
import ImportCensus.Proofs.Usage.Histories

/-!
# `ImportCensus.Proofs.Census.Restriction`: fewer known classes, fewer usages

Whether the class of an import is known decides whether the import makes a usage, and nothing else.
It has no say in where the scan of a header stops, in the package of a consumer, or in what becomes
of other classes.

* `usagesFrom_of_subset`: the loop over the lines of a header. The induction is on the lines; both
  runs keep the same package and the same position in the block.
* `result_gatherUsages_of_subset`: the same for a whole tree, in either mode.
* `gatherUsages_restricts`: both together.
-/

set_option autoImplicit false

namespace ImportCensus

/-! ### Headers -/

namespace Header

variable {known wider : ClassSet}

/-- The usages in the lines that are left, with fewer known classes. The package and the position in
the block are general in the induction. No line changes them in different ways for the two sets, so
both scans are always in the same state. -/
theorem usagesFrom_of_subset (hsub : ∀ name ∈ known, name ∈ wider) (unitName package : Text)
    (inBlock : Bool) (lines : List Text) :
    usagesFrom unitName known package inBlock lines =
      (usagesFrom unitName wider package inBlock lines).filter (known.contains ·.dependency) := by
  induction lines generalizing package inBlock with
  | nil => rfl
  | cons line rest ih =>
    unfold usagesFrom
    by_cases hblank : Text.isBlank line = true
    · rw [if_pos hblank, if_pos hblank, ih]
    · rw [if_neg hblank, if_neg hblank]
      cases importedName? line with
      | none =>
        -- No import: both scans stop here, or both go on.
        cases inBlock with
        | true => rfl
        | false => exact ih _ false
      | some name =>
        dsimp only
        rw [ih]
        by_cases hknown : known.contains name = true
        · have hwider : wider.contains name = true :=
            ClassSet.contains_iff.2 (hsub name (ClassSet.contains_iff.1 hknown))
          rw [if_pos hknown, if_pos hwider, List.filter_cons, if_pos hknown]
        · -- A usage of the larger set is dropped by the filter.
          rw [if_neg hknown]
          by_cases hwider : wider.contains name = true
          · rw [if_pos hwider, List.filter_cons, if_neg hknown]
          · rw [if_neg hwider]

/-- The usages in a source text, with fewer known classes. Both scans begin in the same state. -/
theorem usagesIn_of_subset (hsub : ∀ name ∈ known, name ∈ wider) (unitName source : Text) :
    usagesIn unitName source known =
      (usagesIn unitName source wider).filter (known.contains ·.dependency) :=
  usagesFrom_of_subset hsub unitName [] false source.lines

end Header

/-! ### Trees -/

namespace FileSystem

variable {known wider : ClassSet}

/-- The usages in some files, with fewer known classes. A file without text has none for either
set. -/
theorem flatten_foundUsages_of_subset (hsub : ∀ name ∈ known, name ∈ wider)
    (files : List SourceFile) :
    (files.map (SourceFile.foundUsages Header.usagesIn known)).flatten =
      (files.map (SourceFile.foundUsages Header.usagesIn wider)).flatten.filter
        (known.contains ·.dependency) := by
  rw [List.filter_flatten, List.map_map]
  congr 1
  refine List.map_congr_left fun file _ => ?_
  unfold SourceFile.foundUsages
  rw [Function.comp_apply]
  cases file.source? with
  | none => rfl
  | some source => exact Header.usagesIn_of_subset hsub file.unitName source

/-- The entries for some files, with fewer known classes. Grouping the usages that are left gives
the entries that are left, so no entry loses a consumer or changes its place. -/
theorem entries_recordAll_of_subset (hsub : ∀ name ∈ known, name ∈ wider)
    (files : List SourceFile) :
    (UsageMap.empty.recordAll
        (files.map (SourceFile.foundUsages Header.usagesIn known)).flatten).entries =
      (UsageMap.empty.recordAll
        (files.map (SourceFile.foundUsages Header.usagesIn wider)).flatten).entries.filter
          (known.contains ·.dependency) := by
  rw [(UsageMap.gathers_recordAll _).entries_eq, (UsageMap.gathers_recordAll _).entries_eq,
    flatten_foundUsages_of_subset hsub, grouped_filter]

/-- The entries for a tree, with fewer known classes. A fault of the tree is the same, since the
known classes have no part in reading a file. -/
theorem result_gatherUsages_of_subset (fs : FileSystem) (options : CensusOptions) (root : Text)
    (hsub : ∀ name ∈ known, name ∈ wider) :
    (fs.gatherUsages options Header.usagesIn known root).result.map UsageMap.entries =
      (fs.gatherUsages options Header.usagesIn wider root).result.map fun map =>
        map.entries.filter (known.contains ·.dependency) := by
  rw [result_gatherUsages, result_gatherUsages]
  cases fs.checkRoot root with
  | error fault => rfl
  | ok stop =>
    simp only [Except.bind]
    cases firstFault? options.parallel root (fs.walk options.sorted stop) with
    | some fault => rfl
    | none => exact congrArg Except.ok (entries_recordAll_of_subset hsub _)

/-- How the usages of a tree for some known classes compare with those for more classes. -/
structure Restricts (known : ClassSet) (narrow wide : Except Fault UsageMap) : Prop where
  succeeds_iff : (∃ map, narrow = .ok map) ↔ ∃ map, wide = .ok map
  fault_iff : ∀ fault, narrow = .error fault ↔ wide = .error fault
  /-- The entries are those of known dependencies, with the same consumers in the same order. -/
  entries_eq : ∀ map widerMap, narrow = .ok map → wide = .ok widerMap →
    map.entries = widerMap.entries.filter (known.contains ·.dependency)

/-- One equation says it all: two results whose entries agree in this way succeed together or fail
with the same fault. -/
theorem restricts_of_map_eq {narrow wide : Except Fault UsageMap}
    (h : narrow.map UsageMap.entries = wide.map fun map =>
      map.entries.filter (known.contains ·.dependency)) : Restricts known narrow wide := by
  -- The two results fail alike, or both are maps.
  cases narrow with
  | error fault =>
    cases wide with
    | error other =>
      cases h
      exact ⟨by simp, by simp, nofun⟩
    | ok widerMap => cases h
  | ok map =>
    cases wide with
    | error other => cases h
    | ok widerMap =>
      refine ⟨by simp, by simp, ?_⟩
      rintro _ _ ⟨⟩ ⟨⟩
      exact Except.ok.inj h

/-- **With fewer known classes, the usages are those of the classes that are left.** This holds of
every text, and of every tree in either mode: the walk ends in the same way, and each dependency
that is still known keeps its consumers and its place in the order. -/
theorem gatherUsages_restricts (fs : FileSystem) (options : CensusOptions) (root : Text)
    {known wider : ClassSet} (hsub : ∀ name ∈ known, name ∈ wider) :
    (∀ unitName source, Header.usagesIn unitName source known =
      (Header.usagesIn unitName source wider).filter (known.contains ·.dependency)) ∧
    Restricts known (fs.gatherUsages options Header.usagesIn known root).result
      (fs.gatherUsages options Header.usagesIn wider root).result :=
  ⟨Header.usagesIn_of_subset hsub,
    restricts_of_map_eq (result_gatherUsages_of_subset fs options root hsub)⟩

/-- A tree with two units. In the first one the import of `C` opens the block, and the last line
stands behind the block. -/
def sampleTarget : FileSystem where
  nodes :=
    [(["E.java".toList],
        .file (.ok (Text.encode "import C;\nimport A;\n\x7b\nimport A;".toList))),
      (["D.java".toList], .file (.ok (Text.encode "import A;".toList)))]
  workingDirectory := some []
  distinct := by decide
  named := by decide
  storable := by decide
  standing := by simp
  rooted := by
    intro name dir h
    simp at h
    rcases h with h | h <;> exact .inl h.2

/-- With `C` no longer known its import still opens the block of the first unit, and the import of
`A` keeps its consumers in their order. The line behind the block makes no usage for either set. -/
theorem gatherUsages_sampleTarget :
    ∃ map, (sampleTarget.gatherUsages ⟨false, true⟩ Header.usagesIn
      (.ofList [['A']]) ['/']).result = .ok map ∧
        map.entries = [⟨['A'], [".E".toList, ".D".toList]⟩] := by
  have hsub : ∀ name ∈ ClassSet.ofList [['A']], name ∈ ClassSet.ofList [['A'], ['C']] := by
    simp [ClassSet.ofList]
  obtain ⟨-, hrestricts⟩ := gatherUsages_restricts sampleTarget ⟨false, true⟩ ['/'] hsub
  -- With both classes known, that of the first import comes first.
  have hwide : (sampleTarget.gatherUsages ⟨false, true⟩ Header.usagesIn
      (.ofList [['A'], ['C']]) ['/']).result.map UsageMap.entries =
      .ok [⟨['C'], [".E".toList]⟩, ⟨['A'], [".E".toList, ".D".toList]⟩] := by
    cbv
  obtain ⟨widerMap, hwider, hentries⟩ := map_eq_ok_iff.1 hwide
  obtain ⟨map, hmap⟩ := hrestricts.succeeds_iff.2 ⟨widerMap, hwider⟩
  refine ⟨map, hmap, ?_⟩
  rw [hrestricts.entries_eq map widerMap hmap hwider, hentries]
  decide

end FileSystem

end ImportCensus

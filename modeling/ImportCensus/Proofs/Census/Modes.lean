import ImportCensus.Proofs.Census.Visit

/-!
# `ImportCensus.Proofs.Census.Modes`: one pass and phases give the same

A tree is worked through in one pass or in phases. Both read the units of the same walk, but they
meet faults at different times: one pass stops at the first fault of the walk, be it a break or a
unit that cannot be read, while the phases read no unit before all of them are found.

The phases read the units at the same time, so it is left open which of several unreadable units is
reported. `InPhases` is the relation of all outcomes that this allows, and `ModesAgree` says how
each of them compares with one pass.

* `result_gatherUsages_onePass`, `result_gatherUsages_phases`: what the two ways to gather usages
  end with, as functions of the items of the walk. `result_collectClasses_onePass` and
  `result_collectClasses_phases` say the same of the classes of a tree.
* `modesAgree_of_results`: two runs with such results agree.
* `both_modes_agree`: the usages of a tree, the classes of a tree and the census of two trees.
-/

set_option autoImplicit false

namespace ImportCensus

/-! ### What one file contributes -/

namespace SourceFile

/-- The fault of a file that cannot be read. -/
def fault? (file : SourceFile) : Option Fault :=
  match file.content with
  | .error cause => some (.unreadable file.path cause)
  | .ok _ => none

/-- The text of a file that can be read and is UTF-8. -/
def source? (file : SourceFile) : Option Text :=
  match file.content with
  | .error _ => none
  | .ok bytes => Text.decode? bytes

/-- The usages that a scanner finds in a file. A file without text has none. -/
def foundUsages (scanner : Scanner) (known : ClassSet) (file : SourceFile) : List Usage :=
  match file.source? with
  | some source => scanner file.unitName source known
  | none => []

/-- The unit that a file declares. A file without text declares no package. -/
def declaredUnit (file : SourceFile) : CompilationUnit :=
  ⟨(file.source?.map Header.packageOf).getD [], file.unitName⟩

/-- Reading a file fails only if its bytes cannot be had. Bytes that are no UTF-8 are no fault: they
give no text, which is logged. -/
theorem result_text (file : SourceFile) : file.text.result = settle file.fault? file.source? := by
  unfold text fault? source?
  cases file.content with
  | error cause => rfl
  | ok bytes =>
    dsimp only
    cases Text.decode? bytes <;> rfl

/-- The unit that a file declares is read from its text alone, so this fails exactly where reading
does. A file without text declares no package. -/
theorem result_unit (file : SourceFile) :
    file.unit.result = settle file.fault? file.declaredUnit := by
  unfold unit declaredUnit
  rw [Traced.result_bind, result_text]
  cases file.fault? <;> rfl

/-- A scan fails exactly where reading the file does. A file without text has no usages, and whether
any are found in a text changes only what is logged. -/
theorem result_usages (scanner : Scanner) (known : ClassSet) (file : SourceFile) :
    (file.usages scanner known).result = settle file.fault? (file.foundUsages scanner known) := by
  unfold usages foundUsages
  rw [Traced.result_bind, result_text]
  cases file.fault? with
  | some fault => rfl
  | none =>
    cases file.source? with
    | none => rfl
    | some source =>
      -- Only the log depends on whether anything was found.
      show Traced.result (if _ then _ else _) = _
      split <;> rfl

end SourceFile

namespace FileSystem

variable {α β : Type}

/-! ### The phases, read at the same time -/

/-- What working through a tree in phases may end with, where `task` is done with each unit and
`combine` puts the results together in the order of the walk. Tasks are done at the same time, so of
several that fail any one may be reported. -/
inductive InPhases (fs : FileSystem) (sorted : Bool) (root : Text) (task : SourceFile → Traced α)
    (combine : List α → β) : Except Fault β → Prop
  | notFound {fault : Fault} :
      (fs.findUnits sorted root).result = .error fault →
      InPhases fs sorted root task combine (.error fault)
  | notDone {files : List SourceFile} {file : SourceFile} {fault : Fault} :
      (fs.findUnits sorted root).result = .ok files → file ∈ files →
      (task file).result = .error fault →
      InPhases fs sorted root task combine (.error fault)
  | done {files : List SourceFile} {results : List α} :
      (fs.findUnits sorted root).result = .ok files →
      files.map (fun file => (task file).result) = results.map .ok →
      InPhases fs sorted root task combine (.ok (combine results))

/-- How the two modes compare: `run false` is one pass, `run true` the phases with the units read
one after the other, and `contribution` is what a unit adds. -/
structure ModesAgree (fs : FileSystem) (sorted : Bool) (root : Text) (task : SourceFile → Traced α)
    (contribution : SourceFile → α) (combine : List α → β) (run : Bool → Except Fault β) :
    Prop where
  /-- To read one unit after the other is one way to read them at the same time. -/
  inPhases : InPhases fs sorted root task combine (run true)
  /-- Phases give a result exactly when one pass does, and the same one. -/
  ok_iff : ∀ outcome, InPhases fs sorted root task combine outcome →
    ∀ result, outcome = .ok result ↔ run false = .ok result
  /-- The result is made of the contributions of all units in the order of the walk, and there is
  one exactly when these can be found and read. -/
  ok_value : ∀ result, run false = .ok result ↔
    ∃ files, (fs.findUnits sorted root).result = .ok files ∧
      (∀ file ∈ files, file.fault? = none) ∧ result = combine (files.map contribution)
  /-- A root that is no directory is the same fault in both modes. -/
  root_fault : ∀ fault, fs.checkRoot root = .error fault →
    run false = .error fault ∧
      ∀ outcome, InPhases fs sorted root task combine outcome → outcome = .error fault
  /-- One pass ends with the first fault of the walk. -/
  onePass_fault : ∀ stop, fs.checkRoot root = .ok stop → ∀ fault, run false = .error fault ↔
    (fs.walk sorted stop).findSome? (WalkItem.fault? root SourceFile.fault?) = some fault
  /-- Phases end with the first break of the walk, and if there is none with the fault of some unit
  that cannot be read. -/
  phases_fault : ∀ stop, fs.checkRoot root = .ok stop → ∀ fault,
    InPhases fs sorted root task combine (.error fault) ↔
      (fs.walk sorted stop).findSome? (WalkItem.break? root) = some fault ∨
      (fs.walk sorted stop).findSome? (WalkItem.break? root) = none ∧
        ∃ file ∈ unitsOf (fs.walk sorted stop), file.fault? = some fault

section

variable {fs : FileSystem} {sorted : Bool} {root : Text} {task : SourceFile → Traced α}
  {contribution : SourceFile → α} {combine : List α → β} {run : Bool → Except Fault β}

/-- Tasks that all succeed give the contributions, and then no file has a fault. Both lists are gone
through together, so the results are in the order of the files in which they were asked for. -/
theorem map_result_eq_map_ok_iff
    (htask : ∀ file, (task file).result = settle file.fault? (contribution file))
    {files : List SourceFile} {results : List α} :
    files.map (fun file => (task file).result) = results.map .ok ↔
      (∀ file ∈ files, file.fault? = none) ∧ results = files.map contribution := by
  induction files generalizing results with
  | nil => cases results <;> simp
  | cons file files ih =>
    cases results with
    | nil => simp
    | cons result results =>
      rw [List.map_cons, List.map_cons, List.cons.injEq, ih, htask, settle_eq_ok_iff, List.map_cons,
        List.cons.injEq, List.forall_mem_cons]
      exact and_and_and_comm

/-- The outcomes of phases as they follow from the units that are found: the fault of one of them,
any one, or else what all of them contribute. What the task does besides that drops out. -/
theorem inPhases_iff (htask : ∀ file, (task file).result = settle file.fault? (contribution file))
    {outcome : Except Fault β} :
    InPhases fs sorted root task combine outcome ↔
      match (fs.findUnits sorted root).result with
      | .error fault => outcome = .error fault
      | .ok files =>
        (∃ file ∈ files, ∃ fault, file.fault? = some fault ∧ outcome = .error fault) ∨
          (∀ file ∈ files, file.fault? = none) ∧
            outcome = .ok (combine (files.map contribution)) := by
  constructor
  · intro h
    -- Each rule says which of the two phases has failed, or that none has.
    cases h with
    | notFound hfind => rw [hfind]
    | notDone hfind hfile hfault =>
      rw [htask, settle_eq_error_iff] at hfault
      rw [hfind]
      exact .inl ⟨_, hfile, _, hfault, rfl⟩
    | done hfind hall =>
      obtain ⟨hnone, rfl⟩ := (map_result_eq_map_ok_iff htask).1 hall
      rw [hfind]
      exact .inr ⟨hnone, rfl⟩
  · intro h
    -- Whether the search fails decides which rules can apply.
    cases hfind : (fs.findUnits sorted root).result with
    | error fault =>
      rw [hfind] at h
      subst h
      exact .notFound hfind
    | ok files =>
      rw [hfind] at h
      rcases h with ⟨file, hfile, fault, hfault, rfl⟩ | ⟨hnone, rfl⟩
      · exact .notDone hfind hfile (by rw [htask, hfault, settle_some])
      · exact .done hfind ((map_result_eq_map_ok_iff htask).2 ⟨hnone, rfl⟩)

/-- One pass has a result exactly when all units can be found and read, and then it is made of their
contributions. A break and a unit that cannot be read are both faults of the walk, and it has none
if both searches come to nothing. -/
theorem onePass_eq_ok_iff {onePass : Except Fault β}
    (hpass : onePass = (fs.checkRoot root).bind fun stop =>
      settle ((fs.walk sorted stop).findSome? (WalkItem.fault? root SourceFile.fault?))
        (combine ((unitsOf (fs.walk sorted stop)).map contribution)))
    {result : β} :
    onePass = .ok result ↔
      ∃ files, (fs.findUnits sorted root).result = .ok files ∧
        (∀ file ∈ files, file.fault? = none) ∧ result = combine (files.map contribution) := by
  rw [hpass, fs.result_findUnits]
  cases fs.checkRoot root with
  | error fault => simp [Except.bind]
  | ok stop =>
    simp only [Except.bind, settle_eq_ok_iff, findSome?_fault?_eq_none_iff]
    constructor
    · rintro ⟨⟨hbreak, hread⟩, rfl⟩
      exact ⟨_, ⟨hbreak, rfl⟩, List.findSome?_eq_none_iff.1 hread, rfl⟩
    · rintro ⟨files, ⟨hbreak, rfl⟩, hread, rfl⟩
      exact ⟨⟨hbreak, List.findSome?_eq_none_iff.2 hread⟩, rfl⟩

/-- Two runs over the same walk agree if one of them stops at the first fault of any kind, and the
other at the first break and then at the first unit that cannot be read. Everything that
`ModesAgree` says follows from these two equations, so it is shown once for usages and for
classes. -/
theorem modesAgree_of_results
    (htask : ∀ file, (task file).result = settle file.fault? (contribution file))
    (hpass : run false = (fs.checkRoot root).bind fun stop =>
      settle ((fs.walk sorted stop).findSome? (WalkItem.fault? root SourceFile.fault?))
        (combine ((unitsOf (fs.walk sorted stop)).map contribution)))
    (hphases : run true = (fs.findUnits sorted root).result.bind fun files =>
      settle (files.findSome? SourceFile.fault?) (combine (files.map contribution))) :
    ModesAgree fs sorted root task contribution combine run where
  inPhases := by
    rw [inPhases_iff htask, hphases]
    cases (fs.findUnits sorted root).result with
    | error fault => rfl
    | ok files =>
      cases hfirst : files.findSome? SourceFile.fault? with
      | some fault =>
        -- The first unreadable unit is one of those that may be reported.
        obtain ⟨file, hfile, hfault⟩ := List.exists_of_findSome?_eq_some hfirst
        exact .inl ⟨file, hfile, fault, hfault, by simp [Except.bind, hfirst]⟩
      | none =>
        exact .inr ⟨List.findSome?_eq_none_iff.1 hfirst, by simp [Except.bind, hfirst]⟩
  ok_iff outcome houtcome result := by
    rw [inPhases_iff htask] at houtcome
    rw [onePass_eq_ok_iff hpass]
    cases hfind : (fs.findUnits sorted root).result with
    | error fault =>
      rw [hfind] at houtcome
      simp [houtcome]
    | ok files =>
      rw [hfind] at houtcome
      rcases houtcome with ⟨file, hfile, fault, hfault, rfl⟩ | ⟨hread, rfl⟩
      · -- A unit that cannot be read keeps one pass from its end as well.
        simp only [reduceCtorEq, Except.ok.injEq, false_iff, not_exists, not_and]
        rintro files rfl hread
        rw [hread file hfile] at hfault
        cases hfault
      · simp only [Except.ok.injEq, exists_eq_left']
        constructor
        · rintro rfl
          exact ⟨hread, rfl⟩
        · rintro ⟨-, rfl⟩
          rfl
  ok_value _ := onePass_eq_ok_iff hpass
  root_fault fault hroot := by
    refine ⟨by rw [hpass, hroot]; rfl, fun outcome houtcome => ?_⟩
    rw [inPhases_iff htask, fs.result_findUnits, hroot] at houtcome
    exact houtcome
  onePass_fault stop hroot fault := by
    rw [hpass, hroot]
    exact settle_eq_error_iff
  phases_fault stop hroot fault := by
    rw [inPhases_iff htask, fs.result_findUnits, hroot]
    simp only [Except.bind]
    cases (fs.walk sorted stop).findSome? (WalkItem.break? root) with
    | some other => simp [eq_comm]
    | none => simp [eq_comm]

/-- Either mode has a result exactly when all units can be found and read. Later proofs about a
census take the units from here and do not ask which mode was in effect. -/
theorem ModesAgree.eq_ok_iff (h : ModesAgree fs sorted root task contribution combine run)
    {parallel : Bool} {result : β} :
    run parallel = .ok result ↔
      ∃ files, (fs.findUnits sorted root).result = .ok files ∧
        (∀ file ∈ files, file.fault? = none) ∧ result = combine (files.map contribution) := by
  rw [← h.ok_value]
  cases parallel with
  | false => rfl
  | true => exact h.ok_iff _ h.inPhases result

end

/-! ### The usages of a tree -/

/-- To record lists of usages one after the other is to record all of them. The one pass records
each unit's usages as it comes to the unit, and the phases record them all in the end. -/
theorem recordAll_flatten (map : UsageMap) (found : List (List Usage)) :
    map.recordAll found.flatten = found.foldl UsageMap.recordAll map := by
  show found.flatten.foldl UsageMap.record map = _
  rw [List.foldl_flatten]
  rfl

/-- Usages gathered in one pass, from the items of the walk. The visit reads a unit and records its
usages at once, so its first fault is that of the walk with all reading done on the way. -/
theorem result_gatherUsages_onePass (fs : FileSystem) (sorted : Bool) (scanner : Scanner)
    (known : ClassSet) (root : Text) :
    (fs.gatherUsages ⟨sorted, false⟩ scanner known root).result =
      (fs.checkRoot root).bind fun stop =>
        settle ((fs.walk sorted stop).findSome? (WalkItem.fault? root SourceFile.fault?))
          (UsageMap.empty.recordAll
            ((unitsOf (fs.walk sorted stop)).map
              (SourceFile.foundUsages scanner known)).flatten) := by
  have hvisit := fs.result_visit sorted root
    (fun map file => .ofTraced map (map.recordAll <$> file.usages scanner known))
    SourceFile.fault? (fun map file => map.recordAll (file.foundUsages scanner known))
    (fun map file => by
      rw [Visit.traced_ofTraced_result, Traced.result_map, SourceFile.result_usages]
      cases file.fault? <;> rfl) UsageMap.empty
  -- The visit folds over files, so the lists of usages are put apart again.
  simp only [recordAll_flatten, List.foldl_map]
  rw [← hvisit]
  unfold gatherUsages
  simp only [Traced.result_bind, Traced.result_logEvent, Bool.false_eq_true, if_false]
  cases (fs.visit sorted root _ _).traced.result <;> rfl

/-- Usages gathered in phases, from the units that are found. Nothing is read before all units are
found, so a break of the walk comes before any unit that cannot be read. -/
theorem result_gatherUsages_phases (fs : FileSystem) (sorted : Bool) (scanner : Scanner)
    (known : ClassSet) (root : Text) :
    (fs.gatherUsages ⟨sorted, true⟩ scanner known root).result =
      (fs.findUnits sorted root).result.bind fun files =>
        settle (files.findSome? SourceFile.fault?)
          (UsageMap.empty.recordAll
            (files.map (SourceFile.foundUsages scanner known)).flatten) := by
  -- All units are read before anything is recorded, and recording cannot fail.
  have hread (files : List SourceFile) :=
    Traced.result_mapM_settle (SourceFile.result_usages scanner known) files
  unfold gatherUsages
  simp only [Traced.result_bind, Traced.result_logEvent, if_true, hread]
  cases (fs.findUnits sorted root).result with
  | error fault => rfl
  | ok files =>
    simp only [bind, Except.bind]
    cases files.findSome? SourceFile.fault? with
    | some fault => rfl
    | none => exact congrArg Except.ok (recordAll_flatten _ _).symm

/-! ### The classes of a tree -/

/-- To add a unit never fails. One without package is only logged. -/
theorem result_addUnit (set : ClassSet) (unit : CompilationUnit) :
    (set.addUnit unit).result = .ok (set.insertUnit unit) := by
  unfold ClassSet.addUnit
  split <;> rfl

/-- To add the class of a file fails only if the file cannot be read. -/
theorem result_addFile (set : ClassSet) (file : SourceFile) :
    (set.addFile file).result = settle file.fault? (set.insertUnit file.declaredUnit) := by
  rw [ClassSet.addFile, Traced.result_bind, SourceFile.result_unit]
  cases file.fault? with
  | some fault => rfl
  | none => exact result_addUnit set file.declaredUnit

/-- To add several units never fails either, and gives the fold without the log. -/
theorem result_foldlM_addUnit (units : List CompilationUnit) (set : ClassSet) :
    (units.foldlM ClassSet.addUnit set).result = .ok (units.foldl ClassSet.insertUnit set) := by
  induction units generalizing set with
  | nil => rfl
  | cons unit units ih =>
    rw [List.foldlM_cons, Traced.result_bind, result_addUnit]
    exact ih (set.insertUnit unit)

/-- Classes collected in one pass, from the items of the walk. As with usages, each unit is read
where the walk comes to it. -/
theorem result_collectClasses_onePass (fs : FileSystem) (sorted : Bool) (root : Text) :
    (fs.collectClasses ⟨sorted, false⟩ root).result =
      (fs.checkRoot root).bind fun stop =>
        settle ((fs.walk sorted stop).findSome? (WalkItem.fault? root SourceFile.fault?))
          (((unitsOf (fs.walk sorted stop)).map SourceFile.declaredUnit).foldl
            ClassSet.insertUnit .empty) := by
  have hvisit := fs.result_visit sorted root
    (fun set file => .ofTraced set (set.addFile file))
    SourceFile.fault? (fun set file => set.insertUnit file.declaredUnit)
    (fun set file => by rw [Visit.traced_ofTraced_result, result_addFile]) ClassSet.empty
  simp only [List.foldl_map]
  rw [← hvisit]
  unfold collectClasses
  simp only [Traced.result_bind, Traced.result_logEvent, Bool.false_eq_true, if_false]
  cases (fs.visit sorted root _ _).traced.result <;> rfl

/-- Classes collected in phases, from the units that are found. The units are read first and added
afterwards, which cannot fail any more. -/
theorem result_collectClasses_phases (fs : FileSystem) (sorted : Bool) (root : Text) :
    (fs.collectClasses ⟨sorted, true⟩ root).result =
      (fs.findUnits sorted root).result.bind fun files =>
        settle (files.findSome? SourceFile.fault?)
          ((files.map SourceFile.declaredUnit).foldl ClassSet.insertUnit .empty) := by
  have hread (files : List SourceFile) :=
    Traced.result_mapM_settle SourceFile.result_unit files
  unfold collectClasses
  simp only [Traced.result_bind, Traced.result_logEvent, if_true, hread, result_foldlM_addUnit]
  cases (fs.findUnits sorted root).result with
  | error fault => rfl
  | ok files =>
    simp only [bind, Except.bind]
    cases files.findSome? SourceFile.fault? <;> rfl

/-! ### Both modes -/

/-- Usages are gathered alike in both modes, for any scanner and any known classes. What a unit
contributes are the usages that the scanner finds in it. -/
theorem modesAgree_gatherUsages (fs : FileSystem) (sorted : Bool) (scanner : Scanner)
    (known : ClassSet) (root : Text) :
    ModesAgree fs sorted root (SourceFile.usages · scanner known)
      (SourceFile.foundUsages scanner known) (fun found => UsageMap.empty.recordAll found.flatten)
      fun parallel => (fs.gatherUsages ⟨sorted, parallel⟩ scanner known root).result :=
  modesAgree_of_results (SourceFile.result_usages scanner known)
    (result_gatherUsages_onePass fs sorted scanner known root)
    (result_gatherUsages_phases fs sorted scanner known root)

/-- Classes are collected alike in both modes. What a unit contributes is the class that it
declares, and they are added to the empty set in the order of the walk. -/
theorem modesAgree_collectClasses (fs : FileSystem) (sorted : Bool) (root : Text) :
    ModesAgree fs sorted root SourceFile.unit SourceFile.declaredUnit
      (fun units => units.foldl ClassSet.insertUnit .empty)
      fun parallel => (fs.collectClasses ⟨sorted, parallel⟩ root).result :=
  modesAgree_of_results SourceFile.result_unit (result_collectClasses_onePass fs sorted root)
    (result_collectClasses_phases fs sorted root)

/-- A census succeeds exactly when its two parts do, the second one with the classes of the first.
So statements about a census are put together from statements about one tree each. -/
theorem result_census_eq_ok_iff {fs : FileSystem} {options : CensusOptions} {source target : Text}
    {census : Census} :
    (fs.census options source target).result = .ok census ↔
      (fs.collectClasses options source).result = .ok census.classes ∧
        (fs.gatherUsages options Header.usagesIn census.classes target).result =
          .ok census.usages := by
  unfold FileSystem.census
  rw [Traced.result_bind_eq_ok_iff]
  simp only [Traced.result_bind_eq_ok_iff, Traced.result_pure, Except.ok.injEq]
  constructor
  · -- The parts of the census are the results of its two halves.
    rintro ⟨classes, hclasses, usages, husages, rfl⟩
    exact ⟨hclasses, husages⟩
  · rintro ⟨hclasses, husages⟩
    exact ⟨census.classes, hclasses, census.usages, husages, rfl⟩

/-- **Both modes agree.** Whatever the file system, the order of listings, the scanner and the known
classes are: the usages of a tree gathered in phases, in whichever order the units are read, are
those gathered in one pass, namely the usages of all units in the order of the walk, recorded from
the empty map. The same holds of the classes of a tree, and so both modes take the same census. How
their faults compare is said in `ModesAgree`. -/
theorem both_modes_agree (fs : FileSystem) (sorted : Bool) (scanner : Scanner) (known : ClassSet)
    (source target : Text) :
    ModesAgree fs sorted target (SourceFile.usages · scanner known)
        (SourceFile.foundUsages scanner known)
        (fun found => UsageMap.empty.recordAll found.flatten)
        (fun parallel => (fs.gatherUsages ⟨sorted, parallel⟩ scanner known target).result) ∧
      ModesAgree fs sorted source SourceFile.unit SourceFile.declaredUnit
        (fun units => units.foldl ClassSet.insertUnit .empty)
        (fun parallel => (fs.collectClasses ⟨sorted, parallel⟩ source).result) ∧
      ∀ census, (fs.census ⟨sorted, true⟩ source target).result = .ok census ↔
        (fs.census ⟨sorted, false⟩ source target).result = .ok census := by
  refine ⟨modesAgree_gatherUsages fs sorted scanner known target,
    modesAgree_collectClasses fs sorted source, fun census => ?_⟩
  have hclasses := modesAgree_collectClasses fs sorted source
  have husages := modesAgree_gatherUsages fs sorted Header.usagesIn census.classes target
  rw [result_census_eq_ok_iff, result_census_eq_ok_iff, hclasses.ok_iff _ hclasses.inPhases,
    husages.ok_iff _ husages.inPhases]

end FileSystem

end ImportCensus

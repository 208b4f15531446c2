import ImportCensus.Proofs.Census.Modes
import ImportCensus.Proofs.FileSystem.Path
import ImportCensus.Proofs.Report.Stats
import ImportCensus.Proofs.Settings.Effective
import ImportCensus.Run

/-!
# `ImportCensus.Proofs.Run`: a run writes its report or changes nothing

A run goes through stages, and only the last of them writes. `stages` is the sequence of their
results, in which every stage reads the file system with which the run began. So it does not matter
what the path of the report leads to: a file of a tree or the settings file are read before they are
overwritten.

* `run_eq`: what a run leaves behind, by the result of its stages.
* `stages_eq_ok_iff`: what a run that succeeds has done, by its settings.
* `stages_eq_error_iff`: `FailsWith` has one rule for each stage, and each rule asks all stages in
  front of it to succeed. So the fault of a run is that of the first stage that fails.
* `run_all_or_nothing`: a run that fails changes and prints nothing, and one that succeeds changes
  one file.
-/

set_option autoImplicit false

namespace ImportCensus

/-! ### Roots and faults of the last stage -/

/-- A root that is asked for is the one that is set. -/
theorem elim_eq_ok_iff {root? : Option Text} {fault : Fault} {root : Text} :
    root?.elim (.error fault) .ok = Except.ok root ↔ root? = some root := by
  cases root? <;> simp

/-- Without one the given fault is reported, and this is the only fault of the step. -/
theorem elim_eq_error_iff {root? : Option Text} {fault other : Fault} :
    root?.elim (.error fault) Except.ok = .error other ↔ root? = none ∧ other = fault := by
  cases root? <;> simp [eq_comm]

/-- To give an error another form does not touch what succeeds. -/
theorem mapError_eq_ok_iff {α ε δ : Type} {result : Except ε α} {f : ε → δ} {value : α} :
    result.mapError f = .ok value ↔ result = .ok value := by
  cases result with
  | error cause => exact ⟨nofun, nofun⟩
  | ok a =>
    exact ⟨fun h => congrArg Except.ok (Except.ok.inj h), fun h => congrArg _ (Except.ok.inj h)⟩

/-- What fails does so for the same cause, in its other form. -/
theorem mapError_eq_error_iff {α ε δ : Type} {result : Except ε α} {f : ε → δ} {fault : δ} :
    result.mapError f = .error fault ↔ ∃ cause, result = .error cause ∧ f cause = fault := by
  cases result with
  | error cause =>
    constructor
    · intro h
      exact ⟨cause, rfl, Except.error.inj h⟩
    · rintro ⟨_, ⟨⟩, rfl⟩
      rfl
  | ok a => exact ⟨nofun, nofun⟩

namespace FileSystem

variable {fs : FileSystem} {request : Request}

/-! ### The stages -/

/-- The report of a census: its rows as a table or as objects, by the format in effect. -/
def reportBytes (settings : Settings) (source target : Text) (census : Census) : ByteArray :=
  let rows := census.usages.rows (rootLabel source) (rootLabel target)
  match settings.format with
  | .csv => (ReportRow.toCsv rows).encode
  | .json => (ReportRow.toJson rows).encode

/-- A run writes these bytes, since it renders the rows in the format of its settings. -/
theorem encode_render (settings : Settings) (source target : Text) (census : Census) :
    (settings.format.render (census.usages.rows (rootLabel source) (rootLabel target))).encode =
      reportBytes settings source target census := by
  unfold reportBytes ReportFormat.render
  cases settings.format <;> rfl

/-- What is printed after a census: a summary with the labels of the two trees, and how many usages
the report has. -/
def printoutOf (settings : Settings) (source target : Text) (top : Nat) (census : Census) :
    Printout :=
  ⟨Summary.compute (rootLabel source) (rootLabel target) top (some settings.reportPath)
    census.classes census.usages, census.usages.usageCount⟩

/-- The results of the stages of a run, one after the other. Compared with the run itself the log is
gone, and so is the order in which the steps of the last stage are logged. -/
def stages (fs : FileSystem) (request : Request) : Except Fault (FileSystem × Printout) := do
  let settings ← (fs.settingsFor request).result
  let source ← settings.root .source
  let target ← settings.root .target
  let classes ← (fs.collectClasses settings.censusOptions source).result
  let usages ← (fs.gatherUsages settings.censusOptions Header.usagesIn classes target).result
  let census : Census := ⟨classes, usages⟩
  let written ← (fs.write settings.reportPath (reportBytes settings source target census)).mapError
    (Fault.unwritableReport settings.reportPath)
  return (written, printoutOf settings source target request.top census)

/-- Showing a report neither fails nor writes, so the result of the last step is that of the
write. -/
theorem result_deliver (format : ReportFormat) (rows : List ReportRow) (path : Text)
    (shown : Bool) :
    (fs.deliver format rows path shown).result =
      (fs.write path (format.render rows).encode).mapError (Fault.unwritableReport path) := by
  unfold deliver
  cases fs.write path (format.render rows).encode with
  | error cause => rfl
  | ok written => cases shown <;> rfl

/-- The stages have the results of the run's own steps. What a step logs does not go into its
result, and the number that is logged as written is the number of usages. -/
theorem result_steps (fs : FileSystem) (request : Request) :
    (fs.settingsFor request >>= fun settings => fs.reportCensus settings request.top).result =
      fs.stages request := by
  simp only [reportCensus, census, stages, ← encode_render, Traced.result_bind, Traced.result_pure,
    Traced.result_logEvent, result_deliver, Traced.ofExcept, bind_assoc, UsageMap.length_rows,
    Nat.add_sub_cancel]
  rfl

/-- What a run leaves behind, by the result of its stages. The files are those of the last stage or
those from before: there is no third case, since no other stage writes. -/
theorem run_eq (fs : FileSystem) (request : Request) :
    ∃ log, fs.run request =
      match fs.stages request with
      | .ok (written, printout) =>
        ⟨written, log, if request.quiet then none else some printout, none⟩
      | .error fault => ⟨fs, log, none, some fault⟩ := by
  rw [← result_steps]
  exact ⟨_, rfl⟩

/-! ### The first stage that fails -/

/-- The settings of a run, and the roots that they name. All stages behind the settings need
both. -/
structure HasRoots (fs : FileSystem) (request : Request) (settings : Settings)
    (source target : Text) : Prop where
  settings_eq : (fs.settingsFor request).result = .ok settings
  source_eq : settings.sourceRoot = some source
  target_eq : settings.targetRoot = some target

/-- The settings of a request are determined, and so are the roots that they name. -/
theorem HasRoots.unique {settings other : Settings} {source target otherSource otherTarget : Text}
    (h : HasRoots fs request settings source target)
    (hother : HasRoots fs request other otherSource otherTarget) :
    settings = other ∧ source = otherSource ∧ target = otherTarget := by
  obtain rfl := Except.ok.inj (h.settings_eq.symm.trans hother.settings_eq)
  obtain rfl := Option.some.inj (h.source_eq.symm.trans hother.source_eq)
  obtain rfl := Option.some.inj (h.target_eq.symm.trans hother.target_eq)
  exact ⟨rfl, rfl, rfl⟩

/-- The fault of the first stage of a run that fails: every rule asks the stages in front of its own
to succeed. -/
inductive FailsWith (fs : FileSystem) (request : Request) : Fault → Prop
  | settings {fault : Fault} :
      (fs.settingsFor request).result = .error fault → FailsWith fs request fault
  | sourceNotGiven {settings : Settings} :
      (fs.settingsFor request).result = .ok settings → settings.sourceRoot = none →
      FailsWith fs request (.rootNotGiven .source)
  | targetNotGiven {settings : Settings} {source : Text} :
      (fs.settingsFor request).result = .ok settings → settings.sourceRoot = some source →
      settings.targetRoot = none → FailsWith fs request (.rootNotGiven .target)
  | sourceTree {settings : Settings} {source target : Text} {fault : Fault} :
      HasRoots fs request settings source target →
      (fs.collectClasses settings.censusOptions source).result = .error fault →
      FailsWith fs request fault
  | targetTree {settings : Settings} {source target : Text} {classes : ClassSet} {fault : Fault} :
      HasRoots fs request settings source target →
      (fs.collectClasses settings.censusOptions source).result = .ok classes →
      (fs.gatherUsages settings.censusOptions Header.usagesIn classes target).result =
        .error fault →
      FailsWith fs request fault
  | report {settings : Settings} {source target : Text} {census : Census} {cause : OsError} :
      HasRoots fs request settings source target →
      (fs.census settings.censusOptions source target).result = .ok census →
      fs.write (settings.output.getD "dependency_usages.csv".toList)
        (reportBytes settings source target census) = .error cause →
      FailsWith fs request
        (.unwritableReport (settings.output.getD "dependency_usages.csv".toList) cause)

/-- The stages fail with the fault of the first one that fails. Read from left to right, each stage
has either failed or handed its result on; from right to left, each rule says which of these to
take. -/
theorem stages_eq_error_iff {fault : Fault} :
    fs.stages request = .error fault ↔ FailsWith fs request fault := by
  simp only [stages, Settings.root, bind_eq_error_iff, elim_eq_ok_iff, elim_eq_error_iff,
    mapError_eq_error_iff]
  constructor
  · -- One case for each stage that may be the first to fail.
    rintro (h | ⟨settings, hsettings, ⟨hnone, rfl⟩ | ⟨source, hsource, ⟨hnone, rfl⟩ |
      ⟨target, htarget, h | ⟨classes, hclasses, h | ⟨usages, husages, h⟩⟩⟩⟩⟩)
    · exact .settings h
    · exact .sourceNotGiven hsettings hnone
    · exact .targetNotGiven hsettings hsource hnone
    · exact .sourceTree ⟨hsettings, hsource, htarget⟩ h
    · exact .targetTree ⟨hsettings, hsource, htarget⟩ hclasses h
    · -- Behind the last stage nothing can fail.
      have hcensus : (fs.census settings.censusOptions source target).result =
          .ok ⟨classes, usages⟩ := result_census_eq_ok_iff.2 ⟨hclasses, husages⟩
      rcases h with ⟨cause, hwrite, rfl⟩ | ⟨written, -, h⟩
      · exact .report ⟨hsettings, hsource, htarget⟩ hcensus hwrite
      · cases h
  · intro h
    -- A rule has the results of the stages in front, and these lead to its own stage.
    cases h with
    | settings h => exact .inl h
    | sourceNotGiven hsettings hnone => exact .inr ⟨_, hsettings, .inl ⟨hnone, rfl⟩⟩
    | targetNotGiven hsettings hsource hnone =>
      exact .inr ⟨_, hsettings, .inr ⟨_, hsource, .inl ⟨hnone, rfl⟩⟩⟩
    | sourceTree hroots h =>
      exact .inr ⟨_, hroots.settings_eq, .inr ⟨_, hroots.source_eq, .inr ⟨_, hroots.target_eq,
        .inl h⟩⟩⟩
    | targetTree hroots hclasses h =>
      exact .inr ⟨_, hroots.settings_eq, .inr ⟨_, hroots.source_eq, .inr ⟨_, hroots.target_eq,
        .inr ⟨_, hclasses, .inl h⟩⟩⟩⟩
    | report hroots hcensus hwrite =>
      obtain ⟨hclasses, husages⟩ := result_census_eq_ok_iff.1 hcensus
      exact .inr ⟨_, hroots.settings_eq, .inr ⟨_, hroots.source_eq, .inr ⟨_, hroots.target_eq,
        .inr ⟨_, hclasses, .inr ⟨_, husages, .inl ⟨_, hwrite, rfl⟩⟩⟩⟩⟩⟩

/-! ### A run that succeeds -/

/-- A run has written the report of a census, all of which was read from the file system with which
it began. It is written to the output that is set, and otherwise to `dependency_usages.csv`. -/
structure Reports (fs : FileSystem) (request : Request) (written : FileSystem)
    (printout : Printout) (settings : Settings) (source target : Text) (census : Census) :
    Prop where
  roots : HasRoots fs request settings source target
  census_eq : (fs.census settings.censusOptions source target).result = .ok census
  wrote : ∃ location, Wrote fs (settings.output.getD "dependency_usages.csv".toList)
    (reportBytes settings source target census) location written
  printout_eq : printout = printoutOf settings source target request.top census

/-- What a run that succeeds has done: it has loaded its settings, taken the census of the two trees
and written the report. -/
theorem stages_eq_ok_iff {written : FileSystem} {printout : Printout} :
    fs.stages request = .ok (written, printout) ↔
      ∃ settings source target census, HasRoots fs request settings source target ∧
        (fs.census settings.censusOptions source target).result = .ok census ∧
        fs.write settings.reportPath (reportBytes settings source target census) = .ok written ∧
        printout = printoutOf settings source target request.top census := by
  simp only [stages, Settings.root, bind_eq_ok_iff, elim_eq_ok_iff, mapError_eq_ok_iff]
  constructor
  · rintro ⟨settings, hsettings, source, hsource, target, htarget, classes, hclasses, usages,
      husages, file, hwrite, hreturn⟩
    cases hreturn
    exact ⟨settings, source, target, ⟨classes, usages⟩, ⟨hsettings, hsource, htarget⟩,
      result_census_eq_ok_iff.2 ⟨hclasses, husages⟩, hwrite, rfl⟩
  · rintro ⟨settings, source, target, census, hroots, hcensus, hwrite, rfl⟩
    obtain ⟨hclasses, husages⟩ := result_census_eq_ok_iff.1 hcensus
    exact ⟨settings, hroots.settings_eq, source, hroots.source_eq, target, hroots.target_eq, _,
      hclasses, _, husages, _, hwrite, rfl⟩

/-- A run that succeeds has written its report. What the write has changed is known from
`exists_wrote_of_write`, and everything else that goes into the report was read before. -/
theorem reports_of_stages {written : FileSystem} {printout : Printout}
    (h : fs.stages request = .ok (written, printout)) :
    ∃ settings source target census,
      Reports fs request written printout settings source target census := by
  obtain ⟨settings, source, target, census, hroots, hcensus, hwrite, hprintout⟩ :=
    stages_eq_ok_iff.1 h
  exact ⟨settings, source, target, census, hroots, hcensus, exists_wrote_of_write hwrite,
    hprintout⟩

/-- **A run is all or nothing.** It fails with the fault of its first stage that fails, and then no
file has changed and nothing is printed. If it succeeds, one file has changed or is new: the one to
which the path of the report leads. The report in it is that of the trees as they were before. -/
theorem run_all_or_nothing (fs : FileSystem) (request : Request) :
    (∀ fault, (fs.run request).failure = some fault ↔ FailsWith fs request fault) ∧
    ((fs.run request).failure ≠ none →
      (fs.run request).files = fs ∧ (fs.run request).printout = none) ∧
    ((fs.run request).failure = none → ∃ printout settings source target census,
      Reports fs request (fs.run request).files printout settings source target census ∧
        (fs.run request).printout = if request.quiet then none else some printout) := by
  obtain ⟨log, hrun⟩ := fs.run_eq request
  rw [hrun]
  simp only [← stages_eq_error_iff]
  -- There are only two ends: the write of the last stage, or the files from before.
  cases hstages : fs.stages request with
  | error fault => simp
  | ok value =>
    obtain ⟨written, printout⟩ := value
    refine ⟨fun fault => by simp, fun h => absurd rfl h, fun _ => ?_⟩
    obtain ⟨settings, source, target, census, hreports⟩ := reports_of_stages hstages
    exact ⟨printout, settings, source, target, census, hreports, rfl⟩

/-- A request for a report of the sample project, with the settings file that is named there. -/
def reportingTo (output : Text) : Request :=
  .ofFlags [.given .config "q.yml".toList, .given .sourceRoot ['s'], .given .output output,
    .given .format "json".toList]

/-- The settings of such a request: the target comes from the settings file, and the command line
gives the source, the path of the report and its format. -/
theorem hasRoots_reportingTo (output : Text) :
    HasRoots sampleProject (reportingTo output)
      { sourceRoot := some ['s'], targetRoot := some ['s'], output := some output
        format := .json, openReport := false } ['s'] ['s'] where
  settings_eq := settingsFor_eq_of_loads .named (.file readsAs_sampleProject)
  source_eq := rfl
  target_eq := rfl

/-- The report of the sample project in the format of objects: its only unit uses the class it
imports. -/
def sampleReport : Text :=
  ("[\n  \x7b\n    \"source_root\": \"s\",\n    \"used_class\": \"p.A\",\n" ++
    "    \"target_root\": \"s\",\n    \"consuming_class\": \".E\"\n  \x7d\n]").toList

/-- The sample project has one usage, and this is its report. It is found by running the census. -/
theorem exists_census_sampleProject :
    ∃ census, (sampleProject.census ⟨false, true⟩ ['s'] ['s']).result = .ok census ∧
      ReportRow.toJson (census.usages.rows (rootLabel ['s']) (rootLabel ['s'])) = sampleReport := by
  have hjson : (sampleProject.census ⟨false, true⟩ ['s'] ['s']).result.map (fun census =>
      ReportRow.toJson (census.usages.rows (rootLabel ['s']) (rootLabel ['s']))) =
        .ok sampleReport := by
    cbv
  exact map_eq_ok_iff.1 hjson

/-- A run that is to overwrite the settings file comes to its end: the file is there, so the write
that is left to do replaces its bytes. -/
theorem stages_reportingTo {census : Census}
    (hcensus : (sampleProject.census ⟨false, true⟩ ['s'] ['s']).result = .ok census) :
    ∃ written printout,
      sampleProject.stages (reportingTo "q.yml".toList) = .ok (written, printout) := by
  have hplace : sampleProject.place true "q.yml".toList = .ok (.found ["q.yml".toList]) := by
    cbv
  have hwrite (bytes : ByteArray) : sampleProject.write "q.yml".toList bytes =
      .ok (sampleProject.put ["q.yml".toList] (.file (.ok bytes))) := by
    rw [write, hplace]
    rfl
  exact ⟨_, _, stages_eq_ok_iff.2 ⟨_, _, _, census, hasRoots_reportingTo "q.yml".toList, hcensus,
    hwrite _, rfl⟩⟩

/-- A run can overwrite the settings file that it has read, and the report is that of the trees. A
run that is to write where a directory is fails in its last stage, and nothing has changed. -/
theorem run_reportingTo :
    ((sampleProject.run (reportingTo "q.yml".toList)).failure = none ∧
      (sampleProject.run (reportingTo "q.yml".toList)).files.read "q.yml".toList =
        .ok (Text.encode sampleReport)) ∧
    (sampleProject.run (reportingTo ['s'])).failure = some (.unwritableReport ['s'] .isADirectory) ∧
      (sampleProject.run (reportingTo ['s'])).files = sampleProject := by
  obtain ⟨census, hcensus, hreport⟩ := exists_census_sampleProject
  constructor
  · obtain ⟨-, -, hreports⟩ := run_all_or_nothing sampleProject (reportingTo "q.yml".toList)
    obtain ⟨_, _, hstages⟩ := stages_reportingTo hcensus
    have hsucceeds : (sampleProject.run (reportingTo "q.yml".toList)).failure = none := by
      obtain ⟨log, hrun⟩ := sampleProject.run_eq (reportingTo "q.yml".toList)
      rw [hrun, hstages]
    -- What the theorem says of some settings and some census holds of those of this run.
    obtain ⟨_, settings, source, target, found, hwritten, -⟩ := hreports hsucceeds
    obtain ⟨rfl, rfl, rfl⟩ := (hasRoots_reportingTo _).unique hwritten.roots
    cases hcensus.symm.trans hwritten.census_eq
    obtain ⟨location, hwrote⟩ := hwritten.wrote
    refine ⟨hsucceeds, hwrote.read_eq.trans ?_⟩
    rw [reportBytes, hreport]
  · obtain ⟨hfails, hunchanged, -⟩ := run_all_or_nothing sampleProject (reportingTo ['s'])
    have hplace : sampleProject.place true ['s'] = .ok (.found [['s']]) := by
      cbv
    have hwrite (bytes : ByteArray) : sampleProject.write ['s'] bytes = .error .isADirectory := by
      rw [write, hplace]
      rfl
    have hfailure := (hfails _).2 (.report (hasRoots_reportingTo ['s']) hcensus (hwrite _))
    refine ⟨hfailure, (hunchanged ?_).1⟩
    rw [hfailure]
    exact Option.some_ne_none _

end FileSystem

end ImportCensus

import Mathlib
import ImportCensus.Proofs.Run
import ImportCensus.Proofs.Settings.Effective
import ImportCensus.Session

/-!
# `ImportCensus.Proofs.Presentation`: what does not change a report

Of the settings of a run, five decide on its report: the two roots, the path, the format and the
order of listings. The others say how trees are worked through and what is shown. `ReportSettings`
has the five, as they are in effect after the settings file and the command line have been put
together, so it does not matter which of the two they come from.

* `census_eq_ok_iff_of_sorted_eq`: a census depends on the order of listings, and not on whether it
  is taken in one pass or in phases.
* `stages_of_reportSettings?_eq`: so two runs that agree on the five succeed alike and leave the
  same files.
* `session_presentation`: the same of the sessions of two command lines, and what these print.
-/

set_option autoImplicit false

namespace ImportCensus

/-- The settings that decide on a report. The path is the one in effect, so a run that names the
default path agrees with one that names none. -/
structure ReportSettings where
  source : Option Text
  target : Option Text
  path : Text
  format : ReportFormat
  sorted : Bool
  deriving DecidableEq, Repr

/-- Those of the settings that decide on the report. -/
def Settings.forReport (settings : Settings) : ReportSettings :=
  ⟨settings.sourceRoot, settings.targetRoot, settings.reportPath, settings.format,
    settings.sortEntries⟩

namespace FileSystem

variable {fs : FileSystem}

/-- The settings that decide on the report of a request, if its settings can be loaded. -/
def reportSettings? (fs : FileSystem) (request : Request) : Option ReportSettings :=
  (fs.settingsFor request).result.toOption.map Settings.forReport

/-- A request has such settings if its settings can be loaded, and then they are taken from
these. -/
theorem reportSettings?_eq_some_iff {request : Request} {report : ReportSettings} :
    fs.reportSettings? request = some report ↔
      ∃ settings, (fs.settingsFor request).result = .ok settings ∧ settings.forReport = report := by
  unfold reportSettings?
  cases (fs.settingsFor request).result <;> simp [Except.toOption]

/-! ### Runs -/

/-- A census does not depend on the mode in which it is taken. Each mode finds what reading the
units in the order of the listing finds, so the two are compared through that. -/
theorem census_eq_ok_iff_of_sorted_eq {options other : CensusOptions}
    (hsorted : options.sorted = other.sorted) {source target : Text} {census : Census} :
    (fs.census options source target).result = .ok census ↔
      (fs.census other source target).result = .ok census := by
  obtain ⟨sorted, parallel⟩ := options
  obtain ⟨otherSorted, otherParallel⟩ := other
  obtain rfl : sorted = otherSorted := hsorted
  rw [result_census_eq_ok_iff, result_census_eq_ok_iff,
    (modesAgree_collectClasses fs sorted source).eq_ok_iff,
    (modesAgree_collectClasses fs sorted source).eq_ok_iff,
    (modesAgree_gatherUsages fs sorted _ _ target).eq_ok_iff,
    (modesAgree_gatherUsages fs sorted _ _ target).eq_ok_iff]

section

variable {first second : Request}
  (hsame : fs.reportSettings? first = fs.reportSettings? second)

include hsame

/-- If one of two runs that agree on the report succeeds, the other leaves the same files. It also
has the same numbers to print, if it lists as many classes. The faults are not compared: in phases a
tree may report another of its faults. -/
theorem stages_of_reportSettings?_eq {written : FileSystem} {printout : Printout}
    (h : fs.stages first = .ok (written, printout)) :
    ∃ other, fs.stages second = .ok (written, other) ∧
      (first.top = second.top → other = printout) := by
  obtain ⟨settings, source, target, census, hroots, hcensus, hwrite, rfl⟩ := stages_eq_ok_iff.1 h
  obtain ⟨others, hothers, hreport⟩ := reportSettings?_eq_some_iff.1
    (hsame.symm.trans (reportSettings?_eq_some_iff.2 ⟨settings, hroots.settings_eq, rfl⟩))
  simp only [Settings.forReport, ReportSettings.mk.injEq] at hreport
  obtain ⟨hsource, htarget, hpath, hformat, hsorted⟩ := hreport
  -- The census is the same, as the listings are in the same order.
  have hotherCensus : (fs.census others.censusOptions source target).result = .ok census :=
    (census_eq_ok_iff_of_sorted_eq hsorted).2 hcensus
  refine ⟨printoutOf others source target second.top census, stages_eq_ok_iff.2
    ⟨others, source, target, census, ⟨hothers, hsource.trans hroots.source_eq,
      htarget.trans hroots.target_eq⟩, hotherCensus, ?_, rfl⟩, fun htop => ?_⟩
  · -- The report is made of the format and the census.
    have hbytes : reportBytes others source target census =
        reportBytes settings source target census := by
      unfold reportBytes
      rw [hformat]
    rw [hpath, hbytes]
    exact hwrite
  · unfold printoutOf
    rw [hpath, htop]

/-- Two runs that agree on the report fail alike. Otherwise the one that succeeds would, by
`stages_of_reportSettings?_eq`, make the other succeed too. -/
theorem exists_stages_error_of_reportSettings?_eq {fault : Fault}
    (h : fs.stages first = .error fault) : ∃ other, fs.stages second = .error other := by
  cases hsecond : fs.stages second with
  | error other => exact ⟨other, rfl⟩
  | ok value =>
    obtain ⟨found, hfirst, -⟩ := stages_of_reportSettings?_eq hsame.symm hsecond
    rw [h] at hfirst
    cases hfirst

end

/-- A run that succeeds has written its report, and the path of the report leads to what was
written. -/
theorem exists_read_eq_of_stages {request : Request} {written : FileSystem} {printout : Printout}
    (h : fs.stages request = .ok (written, printout)) :
    ∃ report bytes, fs.reportSettings? request = some report ∧
      written.read report.path = .ok bytes := by
  obtain ⟨settings, source, target, census, hroots, -, hwrite, -⟩ := stages_eq_ok_iff.1 h
  obtain ⟨location, hwrote⟩ := exists_wrote_of_write hwrite
  exact ⟨_, _, reportSettings?_eq_some_iff.2 ⟨settings, hroots.settings_eq, rfl⟩, hwrote.read_eq⟩

/-! ### Sessions -/

/-- The log of a session: its first event, and those of its run. -/
def sessionLog (fs : FileSystem) (request : Request) : List Event :=
  .started programVersion :: (fs.run request).log

/-- The lines of a log that are printed. -/
def printedLog (request : Request) (log : List Event) (time : Text) : Text :=
  (log.filter fun event => request.showsLevel event.level).flatMap (·.printLine time)

/-- A quiet session prints no line of its log, not even those for warnings. -/
theorem printedLog_of_quiet {request : Request} (h : request.quiet = true) (log : List Event)
    (time : Text) : printedLog request log time = [] := by
  simp [printedLog, Request.showsLevel, h]

section

variable {words : List Text} {request : Request} (hparse : Request.parse words = .ok request)
  (hrun : request.completions = none) (time elapsed : Text) (colored : Bool)

include hparse hrun

/-- What the session of a command line leaves behind and prints, if it asks for a run. A session for
completions prints a script and runs nothing, so it is left out. -/
theorem session_eq :
    fs.session words time elapsed colored =
      { files := (fs.run request).files
        output := printedLog request (fs.sessionLog request) time ++
          ((fs.run request).printout.map (·.render colored elapsed)).getD []
        errors := ((fs.run request).failure.map Fault.report).getD []
        exitCode := if (fs.run request).failure.isSome then 1 else 0 } := by
  unfold session
  rw [hparse]
  dsimp only
  rw [serve, hrun]
  rfl

/-- A session whose run succeeds leaves what the run has written, and prints its log and, unless it
is quiet, the summary. -/
theorem session_of_stages_ok {written : FileSystem} {printout : Printout}
    (h : fs.stages request = .ok (written, printout)) :
    (fs.session words time elapsed colored).exitCode = 0 ∧
      (fs.session words time elapsed colored).files = written ∧
      (fs.session words time elapsed colored).output =
        printedLog request (fs.sessionLog request) time ++
          if request.quiet then [] else printout.render colored elapsed := by
  obtain ⟨log, hrunEq⟩ := fs.run_eq request
  rw [session_eq hparse hrun, sessionLog, hrunEq, h]
  refine ⟨rfl, rfl, ?_⟩
  cases request.quiet <;> rfl

/-- A session whose run fails leaves the files as they were. It prints its log, and the fault goes
to the other stream. -/
theorem session_of_stages_error {fault : Fault} (h : fs.stages request = .error fault) :
    (fs.session words time elapsed colored).exitCode = 1 ∧
      (fs.session words time elapsed colored).files = fs ∧
      (fs.session words time elapsed colored).output =
        printedLog request (fs.sessionLog request) time := by
  obtain ⟨log, hrunEq⟩ := fs.run_eq request
  rw [session_eq hparse hrun, sessionLog, hrunEq, h]
  exact ⟨rfl, rfl, List.append_nil _⟩

/-- A quiet session prints nothing, whether its run succeeds or not. -/
theorem output_session_of_quiet (hquiet : request.quiet = true) :
    (fs.session words time elapsed colored).output = [] := by
  cases h : fs.stages request with
  | error fault =>
    obtain ⟨-, -, houtput⟩ := session_of_stages_error hparse hrun time elapsed colored h
    rw [houtput, printedLog_of_quiet hquiet]
  | ok value =>
    obtain ⟨-, -, houtput⟩ := session_of_stages_ok hparse hrun time elapsed colored h
    rw [houtput, printedLog_of_quiet hquiet, hquiet]
    rfl

end

/-- **Presentation and scheduling do not change a report.** Take two command lines that ask for a
run and agree on the settings that decide on the report, in whatever else they differ:

1. one session succeeds exactly when the other does;
2. if they succeed, they leave the same files, and the path of the report leads to the same bytes;
3. if they fail, no file has changed in either;
4. a quiet session prints nothing;
5. sessions that succeed, are not quiet and list as many classes print the same summary and total
   below their logs, but for the time that has elapsed. -/
theorem session_presentation {firstWords secondWords : List Text} {first second : Request}
    (hfirst : Request.parse firstWords = .ok first)
    (hsecond : Request.parse secondWords = .ok second)
    (hfirstRun : first.completions = none) (hsecondRun : second.completions = none)
    (hsame : fs.reportSettings? first = fs.reportSettings? second)
    (firstTime firstElapsed secondTime secondElapsed : Text) (colored : Bool) :
    let firstSession := fs.session firstWords firstTime firstElapsed colored
    let secondSession := fs.session secondWords secondTime secondElapsed colored
    (firstSession.exitCode = 0 ↔ secondSession.exitCode = 0) ∧
    (firstSession.exitCode = 0 → firstSession.files = secondSession.files ∧
      ∃ report bytes, fs.reportSettings? first = some report ∧
        firstSession.files.read report.path = .ok bytes ∧
        secondSession.files.read report.path = .ok bytes) ∧
    (firstSession.exitCode ≠ 0 → firstSession.files = fs ∧ secondSession.files = fs) ∧
    ((first.quiet = true → firstSession.output = []) ∧
      (second.quiet = true → secondSession.output = [])) ∧
    (firstSession.exitCode = 0 → first.quiet = false → second.quiet = false →
      first.top = second.top → ∃ printout : Printout,
        firstSession.output = printedLog first (fs.sessionLog first) firstTime ++
          printout.render colored firstElapsed ∧
        secondSession.output = printedLog second (fs.sessionLog second) secondTime ++
          printout.render colored secondElapsed) := by
  intro firstSession secondSession
  have hquiet : (first.quiet = true → firstSession.output = []) ∧
      (second.quiet = true → secondSession.output = []) :=
    ⟨output_session_of_quiet hfirst hfirstRun firstTime firstElapsed colored,
      output_session_of_quiet hsecond hsecondRun secondTime secondElapsed colored⟩
  -- Whether the first run fails or not, the second does the same.
  cases h : fs.stages first with
  | error fault =>
    obtain ⟨other, hother⟩ := exists_stages_error_of_reportSettings?_eq hsame h
    obtain ⟨hexit, hfiles, -⟩ :=
      session_of_stages_error hfirst hfirstRun firstTime firstElapsed colored h
    obtain ⟨hotherExit, hotherFiles, -⟩ :=
      session_of_stages_error hsecond hsecondRun secondTime secondElapsed colored hother
    have hfailed : firstSession.exitCode ≠ 0 := by
      rw [hexit]
      decide
    have hotherFailed : secondSession.exitCode ≠ 0 := by
      rw [hotherExit]
      decide
    exact ⟨iff_of_false hfailed hotherFailed, fun hok => absurd hok hfailed,
      fun _ => ⟨hfiles, hotherFiles⟩, hquiet, fun hok => absurd hok hfailed⟩
  | ok value =>
    obtain ⟨written, printout⟩ := value
    obtain ⟨other, hother, hprintout⟩ := stages_of_reportSettings?_eq hsame h
    obtain ⟨hexit, hfiles, houtput⟩ :=
      session_of_stages_ok hfirst hfirstRun firstTime firstElapsed colored h
    obtain ⟨hotherExit, hotherFiles, hotherOutput⟩ :=
      session_of_stages_ok hsecond hsecondRun secondTime secondElapsed colored hother
    obtain ⟨report, bytes, hreport, hread⟩ := exists_read_eq_of_stages h
    refine ⟨iff_of_true hexit hotherExit,
      fun _ => ⟨hfiles.trans hotherFiles.symm, report, bytes, hreport, ?_, ?_⟩,
      fun hfailed => absurd hexit hfailed, hquiet, fun _ hloud hotherLoud htop => ?_⟩
    · rw [hfiles]
      exact hread
    · rw [hotherFiles]
      exact hread
    · rw [hloud] at houtput
      rw [hotherLoud, hprintout htop] at hotherOutput
      exact ⟨printout, houtput, hotherOutput⟩

/-- A command line with the same roots as the sample, that otherwise asks for other things. -/
def presentingWords : List Text :=
  ["--parallel=false".toList, "--source-root".toList, "s".toList, "--config=q.yml".toList,
    "--sorted".toList, "--no-open".toList]

/-- The flags that it spells. -/
def presentingFlags : List Flag :=
  [.given .parallel "false".toList, .given .sourceRoot ['s'], .given .config "q.yml".toList,
    .thrown .sorted, .thrown .noOpen]

/-- The command line spells these flags. Two of its options have their value in the same word. -/
theorem parse_presentingWords :
    Request.parse presentingWords = .ok (Request.ofFlags presentingFlags) := by
  have hparallel : longAction? "parallel".toList = some (.set .parallel) := by decide
  have hsource : longAction? "source-root".toList = some (.set .sourceRoot) := by decide
  have hconfig : longAction? "config".toList = some (.set .config) := by decide
  have hsorted : longAction? "sorted".toList = some (.throwSwitch .sorted) := by decide
  have hnoOpen : longAction? "no-open".toList = some (.throwSwitch .noOpen) := by decide
  exact Request.parse_eq_ok_iff.2 ⟨_, .option (.assigned hparallel) (.option (.awaiting hsource)
    (.value (by decide) (.option (.assigned hconfig) (.option (.thrown hsorted)
      (.option (.thrown hnoOpen) .nil))))), ⟨by decide, by decide⟩, rfl⟩

/-- The settings of the sample: its settings file gives the target and keeps the report from being
shown, one flag gives the source and another one sorts the listings. -/
theorem hasRoots_sampleFlags :
    HasRoots sampleProject (Request.ofFlags sampleFlags)
      { sourceRoot := some ['s'], targetRoot := some ['s'], openReport := false
        sortEntries := true } ['s'] ['s'] where
  settings_eq := settingsFor_eq_of_loads .named (.file readsAs_sampleProject)
  source_eq := rfl
  target_eq := rfl

/-- The run of the sample succeeds. It finds one usage, and nothing is yet at the default path. -/
theorem exists_stages_sampleProject :
    ∃ result, sampleProject.stages (Request.ofFlags sampleFlags) = .ok result := by
  have hentries : (sampleProject.census ⟨true, true⟩ ['s'] ['s']).result.map
      (·.usages.entries) = .ok [⟨"p.A".toList, [".E".toList]⟩] := by
    cbv
  obtain ⟨census, hcensus, -⟩ := map_eq_ok_iff.1 hentries
  have hplace : sampleProject.place true defaultReportPath =
      .ok (.vacant [] defaultReportPath) := by
    cbv
  -- Whatever the report is, there is a place for it.
  have hwrite (bytes : ByteArray) : sampleProject.write defaultReportPath bytes =
      .ok (sampleProject.put [defaultReportPath] (.file (.ok bytes))) := by
    rw [write, hplace]
    rfl
  exact ⟨_, stages_eq_ok_iff.2 ⟨_, ['s'], ['s'], census, hasRoots_sampleFlags, hcensus,
    hwrite _, rfl⟩⟩

/-- Both sessions of the sample succeed and leave the same files. -/
theorem session_presentingWords :
    Request.parse sampleWords = .ok (Request.ofFlags sampleFlags) ∧
      Request.parse presentingWords = .ok (Request.ofFlags presentingFlags) ∧
      (sampleProject.session sampleWords [] [] false).exitCode = 0 ∧
      (sampleProject.session presentingWords [] [] false).exitCode = 0 ∧
      (sampleProject.session sampleWords [] [] false).files =
        (sampleProject.session presentingWords [] [] false).files := by
  have hsame : sampleProject.reportSettings? (Request.ofFlags sampleFlags) =
      sampleProject.reportSettings? (Request.ofFlags presentingFlags) := by
    have hsecond : (sampleProject.settingsFor (Request.ofFlags presentingFlags)).result = .ok _ :=
      settingsFor_eq_of_loads .named (.file readsAs_sampleProject)
    rw [reportSettings?, reportSettings?, hasRoots_sampleFlags.settings_eq, hsecond]
    rfl
  obtain ⟨⟨written, printout⟩, hstages⟩ := exists_stages_sampleProject
  obtain ⟨hexit, -, -⟩ := session_of_stages_ok parse_sampleWords rfl [] [] false hstages
  obtain ⟨hexits, hfiles, -⟩ := session_presentation parse_sampleWords parse_presentingWords rfl rfl
    hsame [] [] [] [] false
  exact ⟨parse_sampleWords, parse_presentingWords, hexit, hexits.1 hexit, (hfiles hexit).1⟩

end FileSystem

end ImportCensus

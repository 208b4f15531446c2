import ImportCensus.Census.Analysis
import ImportCensus.CommandLine.Request
import ImportCensus.Report.Delivery
import ImportCensus.Report.Label
import ImportCensus.Report.Summary
import ImportCensus.Settings.File

/-!
# `ImportCensus.Run`: one run of the program

A run settles what is wanted, takes the census of the two trees, writes the report and says what it
has found. Everything is read before the report is written, and nothing can fail after that, so a
run that fails leaves the file system as it was.
-/

set_option autoImplicit false

namespace ImportCensus

namespace Settings

/-- The settings with those of a request in their place. Reports can only be kept from being shown,
and listings can only be ordered. -/
def overriddenBy (settings : Settings) (request : Request) : Settings where
  sourceRoot := request.sourceRoot.or settings.sourceRoot
  targetRoot := request.targetRoot.or settings.targetRoot
  output := request.output.or settings.output
  format := request.format.getD settings.format
  openReport := settings.openReport && !request.noOpen
  sortEntries := settings.sortEntries || request.sorted
  parallel := request.parallel.getD settings.parallel

/-- The root of one of the trees. There is nobody to ask if it is not set. -/
def root (settings : Settings) (role : TreeRole) : Except Fault Text :=
  let root? := match role with
    | .source => settings.sourceRoot
    | .target => settings.targetRoot
  root?.elim (.error (.rootNotGiven role)) .ok

/-- The path to which the report is written. -/
def reportPath (settings : Settings) : Text := settings.output.getD defaultReportPath

/-- How the trees are worked through. -/
def censusOptions (settings : Settings) : CensusOptions := ⟨settings.sortEntries, settings.parallel⟩

end Settings

/-- What is printed at the end of a run. -/
structure Printout where
  summary : Summary
  usageCount : Nat

/-- The text that is printed, where `elapsed` tells the seconds that the run has taken. -/
def Printout.render (printout : Printout) (colored : Bool) (elapsed : Text) : Text :=
  printout.summary.render colored
    ++ Style.secondary.paint colored
        ("⏱  Found ".toList ++ Text.ofNat printout.usageCount ++ " usages in ".toList ++ elapsed
          ++ ['s'])
    ++ ['\n']

/-- What a run leaves behind. -/
structure Aftermath where
  files : FileSystem
  log : List Event
  /-- What is printed, unless the run failed or was to be quiet. -/
  printout : Option Printout
  failure : Option Fault

/-- A computation whose result is a value or a fault, as one that logs nothing. -/
def Traced.ofExcept {α : Type} (result : Except Fault α) : Traced α := ⟨[], result⟩

namespace FileSystem

/-- The settings that a request leads to. -/
def settingsFor (fs : FileSystem) (request : Request) : Traced Settings := do
  let settings ←
    match request.config with
    | some path => fs.readSettings path
    | none =>
      match fs.workingDirectory with
      | some home => fs.findSettings (display home)
      | none => Traced.fail .noWorkingDirectory
  return settings.overriddenBy request

/-- The census with its report written: the file system after that, and what there is to print. -/
def reportCensus (fs : FileSystem) (settings : Settings) (top : Nat) :
    Traced (FileSystem × Printout) := do
  let source ← Traced.ofExcept (settings.root .source)
  let target ← Traced.ofExcept (settings.root .target)
  let census ← fs.census settings.censusOptions source target
  Traced.logEvent (.converting settings.format)
  let rows := census.usages.rows (rootLabel source) (rootLabel target)
  let written ← fs.deliver settings.format rows settings.reportPath settings.openReport
  let summary := Summary.compute (rootLabel source) (rootLabel target) top
    (some settings.reportPath) census.classes census.usages
  -- The row of titles stands for no usage.
  return (written, ⟨summary, rows.length - 1⟩)

/-- The run that a request asks for. -/
def run (fs : FileSystem) (request : Request) : Aftermath :=
  let steps : Traced (FileSystem × Printout) := do
    let settings ← fs.settingsFor request
    fs.reportCensus settings request.top
  -- Being quiet concerns what is printed and nothing else.
  match steps.result with
  | .ok (written, printout) =>
    ⟨written, steps.log, if request.quiet then none else some printout, none⟩
  | .error fault => ⟨fs, steps.log, none, some fault⟩

end FileSystem

end ImportCensus

import ImportCensus.FileSystem.Path
import ImportCensus.Report.Csv
import ImportCensus.Report.Json
import ImportCensus.Traced

/-!
# `ImportCensus.Report.Delivery`: writing and showing a report

A report is written to a file in one of the formats. It can then be shown in a viewer. A path with
control characters is never handed to a viewer, and where no viewer can be started the run goes on
with a warning.
-/

set_option autoImplicit false

namespace ImportCensus

/-- The file to which a report is written unless another one is given. -/
def defaultReportPath : Text := "dependency_usages.csv".toList

/-- A report in the given format. -/
def ReportFormat.render (format : ReportFormat) (rows : List ReportRow) : Text :=
  match format with
  | .csv => ReportRow.toCsv rows
  | .json => ReportRow.toJson rows

namespace FileSystem

/-- Tests for a path that must not be handed to a viewer. -/
def isSuspicious (path : Text) : Bool := path.any fun c => c.toNat < 0x20

/-- Shows a report in a viewer, and tells whether one was started. None ever is: no viewer is
known. -/
def showReport (fs : FileSystem) (path : Text) : Traced Bool := do
  let target := (fs.canonical? path).getD path
  Traced.logEvent (if isSuspicious target then .suspiciousPath target else .notOpened target)
  return false

/-- The file system with the report written to a path, which is then shown if that is wanted. -/
def deliver (fs : FileSystem) (format : ReportFormat) (rows : List ReportRow) (path : Text)
    (shown : Bool) : Traced FileSystem :=
  match fs.write path (format.render rows).encode with
  | .error cause => Traced.fail (.unwritableReport path cause)
  | .ok written => do
    if shown then
      let _ ← written.showReport path
    return written

end FileSystem

end ImportCensus

import ImportCensus.Usage

/-!
# `ImportCensus.Report.Row`: the table of usages

A report is a table with one row per usage, in the order of the usage map, below a row of titles.
The labels of the two trees are repeated in every row.
-/

set_option autoImplicit false

namespace ImportCensus

/-- One row of a report. -/
structure ReportRow where
  sourceRoot : Text
  usedClass : Text
  targetRoot : Text
  consumingClass : Text
  deriving DecidableEq, Repr

namespace ReportRow

/-- The titles of the columns. -/
def header : ReportRow :=
  ⟨"Source Root".toList, "Used Class".toList, "Target Root".toList, "Consuming Class".toList⟩

/-- The four fields, from left to right. -/
def fields (row : ReportRow) : List Text :=
  [row.sourceRoot, row.usedClass, row.targetRoot, row.consumingClass]

/-- The row of one usage between trees with the given labels. -/
def ofUsage (sourceLabel targetLabel : Text) (usage : Usage) : ReportRow :=
  ⟨sourceLabel, usage.dependency, targetLabel, usage.consumer⟩

/-- The usage that a row is about. -/
def usage (row : ReportRow) : Usage := ⟨row.usedClass, row.consumingClass⟩

end ReportRow

/-- The rows of a report: the titles, then one row per usage. -/
def UsageMap.rows (map : UsageMap) (sourceLabel targetLabel : Text) : List ReportRow :=
  .header :: map.usages.map (.ofUsage sourceLabel targetLabel)

end ImportCensus

import ImportCensus.Text.Basic

/-!
# `ImportCensus.Report.Format`: the formats of a report
-/

set_option autoImplicit false

namespace ImportCensus

/-- The format in which a report is written. -/
inductive ReportFormat
  | csv
  | json
  deriving DecidableEq, Repr

namespace ReportFormat

/-- The word for a format in settings and on the command line. -/
def keyword : ReportFormat → Text
  | csv => "csv".toList
  | json => "json".toList

/-- The name of a format in messages. -/
def title : ReportFormat → Text
  | csv => "Csv".toList
  | json => "Json".toList

/-- The format that a word stands for. Upper case is not accepted. -/
def ofKeyword? (word : Text) : Option ReportFormat :=
  [csv, json].find? fun format => format.keyword = word

end ReportFormat

end ImportCensus

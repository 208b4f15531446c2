import ImportCensus.Report.Row

/-!
# `ImportCensus.Report.Csv`: reports as comma separated values

Records end with CRLF and fields are separated by commas. A field that holds a comma, a quote, CR or
LF is enclosed in quotes, and each quote within it is written twice. Every other field is written as
it is.
-/

set_option autoImplicit false

namespace ImportCensus

namespace Csv

/-- The character that encloses fields. -/
def quote : Char := '\x22'

/-- Tests for a character that cannot stand in a bare field. -/
def isSpecial (c : Char) : Bool := c == ',' || c == quote || c == '\r' || c == '\n'

/-- A text with each quote written twice. -/
def doubleQuotes : Text → Text
  | [] => []
  | c :: rest => if c = quote then quote :: quote :: doubleQuotes rest else c :: doubleQuotes rest

/-- The written form of a field. -/
def encodeField (field : Text) : Text :=
  if field.any isSpecial then quote :: doubleQuotes field ++ [quote] else field

/-- The written form of a record. -/
def encodeRecord (fields : List Text) : Text :=
  Text.join [','] (fields.map encodeField) ++ ['\r', '\n']

/-- The written form of a list of records. -/
def encode (records : List (List Text)) : Text := records.flatMap encodeRecord

end Csv

/-- A report as comma separated values. -/
def ReportRow.toCsv (rows : List ReportRow) : Text := Csv.encode (rows.map ReportRow.fields)

end ImportCensus

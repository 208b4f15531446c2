import ImportCensus.Report.Row

/-!
# `ImportCensus.Report.Json`: reports as JSON

The data rows of a report make an array of objects, one for each row. The row of titles is left out,
since the names of the members say what the columns are. The text is indented by two blanks per
level, and an empty array is written without a line break.

In strings only quotes, backslashes and the control characters below U+0020 are escaped.
-/

set_option autoImplicit false

namespace ImportCensus

namespace Json

/-- The digit of a number below 16, in lower case. -/
def hexDigit (n : Nat) : Char := Nat.digitChar n

/-- The written form of a character in a string. -/
def escapeChar (c : Char) : Text :=
  if c = '\x22' then ['\x5c', '\x22']
  else if c = '\x5c' then ['\x5c', '\x5c']
  else if c = '\x08' then ['\x5c', 'b']
  else if c = '\x09' then ['\x5c', 't']
  else if c = '\x0a' then ['\x5c', 'n']
  else if c = '\x0c' then ['\x5c', 'f']
  else if c = '\x0d' then ['\x5c', 'r']
  else if c.toNat < 0x20 then
    ['\x5c', 'u', '0', '0', hexDigit (c.toNat / 16), hexDigit (c.toNat % 16)]
  else [c]

/-- The written form of a string. -/
def encodeString (t : Text) : Text := '\x22' :: t.flatMap escapeChar ++ ['\x22']

/-- A member of an object, on the second level. -/
def encodeMember (key value : Text) : Text :=
  "    ".toList ++ encodeString key ++ ": ".toList ++ encodeString value

/-- An object with string members, as an element of an array. -/
def encodeObject (members : List (Text × Text)) : Text :=
  "  \x7b\n".toList
    ++ Text.join ",\n".toList (members.map fun member => encodeMember member.1 member.2)
    ++ "\n  \x7d".toList

/-- An array of objects with string members. -/
def encodeArray (objects : List (List (Text × Text))) : Text :=
  if objects.isEmpty then "[]".toList
  else "[\n".toList ++ Text.join ",\n".toList (objects.map encodeObject) ++ "\n]".toList

end Json

namespace ReportRow

/-- The members of the object that stands for a row. -/
def members (row : ReportRow) : List (Text × Text) :=
  [("source_root".toList, row.sourceRoot), ("used_class".toList, row.usedClass),
   ("target_root".toList, row.targetRoot), ("consuming_class".toList, row.consumingClass)]

/-- A report as JSON. The first row is taken for the titles. -/
def toJson (rows : List ReportRow) : Text := Json.encodeArray ((rows.drop 1).map members)

end ReportRow

end ImportCensus

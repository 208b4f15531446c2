import ImportCensus.Text.Blank
import ImportCensus.Text.Line

/-!
# `ImportCensus.Header.Package`: the package of a source text

No grammar is involved. The first line that mentions the keyword decides: the package is what
stands behind the keyword on that line, without semicolons and white space. So a line such as
`package;` declares the empty package, also when a later line names another one.
-/

set_option autoImplicit false

namespace ImportCensus

namespace Header

/-- The keyword of a package declaration. -/
def packageKeyword : Text := "package".toList

/-- What ends a declaration. -/
def terminator : Char := ';'

/-- The characters of a line that may belong to a package name. -/
def isNameChar (c : Char) : Bool := c != terminator && !Text.isBlankChar c

/-- The package that a line declares, if it mentions the keyword. -/
def packageIn? (line : Text) : Option Text :=
  (Text.after? packageKeyword line).map (·.filter isNameChar)

/-- The package of a source text: that of its first line which declares one, and the empty text
if there is none. -/
def packageOf (source : Text) : Text := (source.lines.findSome? packageIn?).getD []

end Header

end ImportCensus

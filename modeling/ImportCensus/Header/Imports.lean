import ImportCensus.ClassSet
import ImportCensus.Header.Package
import ImportCensus.Usage

/-!
# `ImportCensus.Header.Imports`: the usages in a source text

One pass over the lines of a unit finds its imports of known classes. Blank lines are passed
over. A line that mentions the package keyword sets the package that later consumers belong to.
The first line with the import keyword opens the import block, and the first line without it
closes the block: nothing behind it is looked at.

The import keyword includes the blank, so an identifier such as `importer` is no import. Comments
are not recognised: an import inside a comment within the block counts.
-/

set_option autoImplicit false

namespace ImportCensus

namespace Header

/-- The keyword of an import, with the blank that follows it. -/
def importKeyword : Text := "import ".toList

/-- The name that a line imports: what stands behind the keyword, up to the terminator. On a line
without terminator it is the rest of the line without its ending. -/
def importedName? (line : Text) : Option Text :=
  (Text.after? importKeyword line).map fun rest =>
    if rest.contains terminator then rest.takeWhile (· != terminator)
    else rest.dropEndWhile Text.isLineBreak

/-- The usages in the lines that are left, where `package` is the package declared so far and
`inBlock` says whether the import block has begun. -/
def usagesFrom (unitName : Text) (known : ClassSet) (package : Text) (inBlock : Bool) :
    List Text → List Usage
  | [] => []
  | line :: rest =>
    if line.isBlank then usagesFrom unitName known package inBlock rest
    else
      let package := (packageIn? line).getD package
      -- A line may hold both keywords: then the package counts for its own import.
      match importedName? line with
      | some name =>
        let later := usagesFrom unitName known package true rest
        if known.contains name then
          ⟨name, CompilationUnit.qualifiedName ⟨package, unitName⟩⟩ :: later
        else later
      | none => if inBlock then [] else usagesFrom unitName known package false rest

/-- The usages of known classes in the lines of a unit, in the order of the lines. The lines may
still have their endings. -/
def usagesInLines (unitName : Text) (known : ClassSet) (lines : List Text) : List Usage :=
  usagesFrom unitName known [] false lines

/-- The usages of known classes in the source text of a unit. -/
def usagesIn (unitName : Text) (source : Text) (known : ClassSet) : List Usage :=
  usagesInLines unitName known source.lines

end Header

end ImportCensus

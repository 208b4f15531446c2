import ImportCensus.Header.Imports

/-!
# `ImportCensus.Header.Block`: the import block of a unit

The usages of a unit said without a pass over its lines. Of the lines that are not blank, the import
block is the first run of lines with the import keyword, and the preamble is what stands in front of
it. Each line of the block whose name is known makes a usage. The package of its consumer is the one
that was declared last, the line itself included.
-/

set_option autoImplicit false

namespace ImportCensus

namespace Header

/-- Tests for a line with the import keyword. -/
def isImport (line : Text) : Bool := Text.mentions importKeyword line

/-- The lines that are not blank. -/
def codeLines (lines : List Text) : List Text := lines.filter (!Text.isBlank ·)

/-- The lines in front of the import block. -/
def preamble (lines : List Text) : List Text := (codeLines lines).takeWhile (!isImport ·)

/-- The first run of lines with the import keyword. -/
def importBlock (lines : List Text) : List Text :=
  ((codeLines lines).dropWhile (!isImport ·)).takeWhile isImport

/-- The package that is declared last in some lines. -/
def lastPackage (lines : List Text) : Text := (lines.reverse.findSome? packageIn?).getD []

/-- The usages of known classes in the import block of a unit. -/
def blockUsages (unitName : Text) (known : ClassSet) (lines : List Text) : List Usage :=
  (importBlock lines).zipIdx.filterMap fun (line, index) =>
    let above := preamble lines ++ (importBlock lines).take (index + 1)
    match importedName? line with
    | some name =>
      if known.contains name then
        some ⟨name, CompilationUnit.qualifiedName ⟨lastPackage above, unitName⟩⟩
      else none
    | none => none

end Header

end ImportCensus

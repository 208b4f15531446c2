import ImportCensus.FileSystem.Walk
import ImportCensus.Header.Imports
import ImportCensus.Traced

/-!
# `ImportCensus.Census.Source`: what one file contributes

A file contributes the class that it declares and the usages in its header. A file that cannot be
read is a fault. A file that is not UTF-8 has no text: it declares no package and uses nothing.
-/

set_option autoImplicit false

namespace ImportCensus

/-- A way to find the usages in a source text, from the name of the unit, its text and the known
classes. -/
abbrev Scanner := Text → Text → ClassSet → List Usage

namespace SourceFile

/-- The text of a file, or nothing if the file is not UTF-8. -/
def text (file : SourceFile) : Traced (Option Text) :=
  match file.content with
  | .error cause => Traced.fail (.unreadable file.path cause)
  | .ok bytes =>
    match Text.decode? bytes with
    | some source => pure (some source)
    | none => do
      Traced.logEvent (.undecodable file.path)
      return none

/-- The name of the unit that a file holds. -/
def unitName (file : SourceFile) : Text := CompilationUnit.nameOfFile file.name

/-- The compilation unit that a file holds. -/
def unit (file : SourceFile) : Traced CompilationUnit := do
  let source? ← file.text
  return ⟨(source?.map Header.packageOf).getD [], file.unitName⟩

/-- The usages of known classes in a file. -/
def usages (file : SourceFile) (scanner : Scanner) (known : ClassSet) : Traced (List Usage) := do
  match ← file.text with
  | none => return []
  | some source =>
    let found := scanner file.unitName source known
    if !found.isEmpty then Traced.logEvent (.usagesInFile file.path found.length)
    return found

end SourceFile

end ImportCensus

import ImportCensus.Text.Basic

/-!
# `ImportCensus.Report.Label`: short names for trees

The code of a project usually lies below a directory `src`, and the directory above that one bears
the name of the project. The label of a root is therefore the segment before the first one that
starts with `src`. A root without such a segment is labelled by its last segment.
-/

set_option autoImplicit false

namespace ImportCensus

/-- How the name of the directory with a project's code starts. -/
def sourceDirectory : Text := "src".toList

/-- The label of the tree with the given root. -/
def rootLabel (root : Text) : Text :=
  let segments := root.segments '/'
  match segments.findIdx? sourceDirectory.isPrefixOf with
  | some 0 => sourceDirectory
  | some (before + 1) => segments.getD before []
  | none => (((root.dropEndWhile (· == '/')).segments '/').getLast?).getD []

end ImportCensus

import ImportCensus.FileSystem.Path

/-!
# `ImportCensus.FileSystem.Listing`: file systems from listings

A listing names the nodes below the working directory, one on a line: a letter for the kind of node
(`f`, `d` or `l`), the path from the working directory, and for links the target, with tabs between
them. Together with the contents of the files it makes a file system.

After a run the files that are new or have other contents are those to be written.
-/

set_option autoImplicit false

namespace ImportCensus

/-- A line of a listing. -/
inductive ListedNode
  | file (path : Text)
  | directory (path : Text)
  | link (path target : Text)
  deriving DecidableEq, Repr

/-- Reads a line of a listing. -/
def ListedNode.ofLine? (line : Text) : Option ListedNode :=
  match line.segments '\t' with
  | ['f'] :: path :: _ => some (.file path)
  | ['d'] :: path :: _ => some (.directory path)
  | ['l'] :: path :: target :: _ => some (.link path target)
  | _ => none

namespace FileSystem

/-- The location that an absolute path without links names. -/
def locationOfPath (path : Text) : Location :=
  ((path.segments '/').filter fun segment => segment ≠ [] ∧ segment ≠ ['.']).reverse

/-- The file system that is empty but for the working directory and those above it. -/
def bare (home : Text) : FileSystem :=
  (empty.createDirectories ('/' :: home)).enter (locationOfPath home)

/-- The file system with one more node. The content matters for files only. -/
def addListed (fs : FileSystem) (node : ListedNode) (content : Content) : FileSystem :=
  match node with
  | .file path => fs.putAt path (.file content)
  | .directory path => fs.createDirectories path
  | .link path target => fs.putAt path (.link target)

/-- The bytes of a node, if it is a file that can be read. -/
def readableBytes? : Node → Option ByteArray
  | .file (.ok bytes) => some bytes
  | _ => none

/-- The files of the second table that are not in the first one. The tables agree in the order of
their common locations. -/
def newFiles (old : List (Location × Node)) : List (Location × Node) → List (Location × ByteArray)
  | [] => []
  | (location, node) :: rest =>
    let before := (old.head?.bind fun entry => readableBytes? entry.2).map ByteArray.toList
    match readableBytes? node with
    | some bytes =>
      if before = some bytes.toList then newFiles old.tail rest
      else (location, bytes) :: newFiles old.tail rest
    | none => newFiles old.tail rest

/-- The paths and contents of the files that `after` has and `before` had not. -/
def filesToWrite (before after : FileSystem) : List (Text × ByteArray) :=
  (newFiles before.nodes after.nodes).map fun (location, bytes) => (display location, bytes)

end FileSystem

end ImportCensus

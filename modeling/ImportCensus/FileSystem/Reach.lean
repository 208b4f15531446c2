import ImportCensus.FileSystem.Path

/-!
# `ImportCensus.FileSystem.Reach`: what lies below a directory

Below a directory lies whatever a chain of entries leads to, where every entry but the last one
leads to a directory, if need be through links. Chains are of any length. Where links form a circle
there is no end of chains, and no walk can follow them all.

- `FileSystem.EndsInFile`: a chain whose last entry leads to a file.
- `FileSystem.Breaks`: a link at which no chain can go on.
-/

set_option autoImplicit false

namespace ImportCensus

namespace FileSystem

/-- The location that an entry of the directory `dir` leads to. -/
def destination (fs : FileSystem) (dir : Location) (name : Name) : Node → Except OsError Location
  | .link target => fs.locateTarget dir target
  | _ => .ok (name :: dir)

/-- A chain of entries that lead to directories: its names, the first one last, and the directories
that they lead to, the root at the end. -/
inductive Chain (fs : FileSystem) (root : Location) : List Name → List Location → Prop
  | root : Chain fs root [] [root]
  | step {names : List Name} {dir location : Location} {above : List Location} {name : Name}
      {node : Node} :
      Chain fs root names (dir :: above) → (name, node) ∈ fs.entries dir →
      fs.destination dir name node = .ok location → fs.node? location = some .directory →
      Chain fs root (name :: names) (location :: dir :: above)

/-- The chain along `names` goes on with an entry `name` that leads to a file. -/
def EndsInFile (fs : FileSystem) (root : Location) (names : List Name) (name : Name)
    (content : Content) : Prop :=
  ∃ dir above node location, Chain fs root names (dir :: above) ∧ (name, node) ∈ fs.entries dir ∧
    fs.destination dir name node = .ok location ∧ fs.node? location = some (.file content)

/-- A link in the directory `dir`, which was reached through the directories `above`, that leads
back to one of these, or cannot be followed for another reason than that its target is missing. -/
inductive Breaks (fs : FileSystem) (dir : Location) (above : List Location) (target : Text) : Prop
  | loop {location : Location} :
      fs.locateTarget dir target = .ok location → fs.node? location = some .directory →
      location ∈ dir :: above → Breaks fs dir above target
  | unreachable {cause : OsError} :
      fs.locateTarget dir target = .error cause → cause ≠ .notFound → Breaks fs dir above target

/-- The path that leads along the names of a chain from a root. -/
def chainPath (root : Text) (names : List Name) : Text := names.reverse.foldl Path.join root

end FileSystem

end ImportCensus

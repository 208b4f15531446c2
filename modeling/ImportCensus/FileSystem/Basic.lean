import ImportCensus.Text.Encoding

/-!
# `ImportCensus.FileSystem.Basic`: file systems as values

A file system is a finite table from locations to nodes. A location is a path without links and
without dots, innermost name first, so the parent of `name :: dir` is `dir` and the top directory
is `[]`. A node is a file, a symbolic link or a directory.

The listing of a directory are the nodes one name below it, in the order of the table. That order
stands for the order in which the host lists a directory. No two nodes stand at one location, so no
listing has a name twice. Every node stands in a directory, so the table is a tree.

The working directory is one of the directories. It can be removed while a program is in it, and
then there is none: relative paths lead nowhere, and nobody can say where the program is.
-/

set_option autoImplicit false

namespace ImportCensus

/-- Why the operating system refuses a request. -/
inductive OsError
  | notFound
  | permissionDenied
  | notADirectory
  | isADirectory
  | nameTooLong
  | tooManyLinks
  | nulInPath
  | notUtf8
  deriving DecidableEq, Repr

/-- The wording of a refusal. -/
def OsError.message : OsError → Text
  | .notFound => "No such file or directory (os error 2)".toList
  | .permissionDenied => "Permission denied (os error 13)".toList
  | .notADirectory => "Not a directory (os error 20)".toList
  | .isADirectory => "Is a directory (os error 21)".toList
  | .nameTooLong => "File name too long (os error 36)".toList
  | .tooManyLinks => "Too many levels of symbolic links (os error 40)".toList
  | .nulInPath => "file name contained an unexpected NUL byte".toList
  | .notUtf8 => "stream did not contain valid UTF-8".toList

/-- The name of a directory entry. -/
abbrev Name := Text

/-- A place in the file system: the names that lead to it, innermost first. -/
abbrev Location := List Name

/-- The bytes that reading a file gives, or why it cannot be read. -/
abbrev Content := Except OsError ByteArray

/-- What stands at a location. -/
inductive Node
  | file (content : Content)
  | link (target : Text)
  | directory

/-- Tests for a name that an entry can have: not empty, not one of the two names with dots, and
without slashes and NUL. -/
def isName (name : Text) : Bool :=
  name ≠ [] && name ≠ ['.'] && name ≠ ['.', '.'] && !name.contains '/' && !name.contains '\x00'

/-- Tests for a node that can be stored: the target of a link is a text without NUL. -/
def Node.isStorable : Node → Bool
  | .link target => !target.contains '\x00'
  | _ => true

/-- A file system: its nodes, and the directory in which relative paths start. -/
structure FileSystem where
  nodes : List (Location × Node)
  /-- Where relative paths start, unless that directory has been removed. -/
  workingDirectory : Option Location
  /-- No two nodes stand at one location. -/
  distinct : (nodes.map Prod.fst).Nodup
  /-- Locations consist of proper names. -/
  named : ∀ location ∈ nodes.map Prod.fst, ∀ name ∈ location, isName name = true
  /-- The nodes are of those that can be stored. -/
  storable : ∀ entry ∈ nodes, entry.2.isStorable = true
  /-- Every node stands in a directory. -/
  rooted : ∀ name dir, name :: dir ∈ nodes.map Prod.fst → dir = [] ∨ (dir, Node.directory) ∈ nodes
  /-- The working directory is a directory. -/
  standing : ∀ home, workingDirectory = some home → home = [] ∨ (home, Node.directory) ∈ nodes

namespace FileSystem

/-- The file system without nodes. -/
def empty : FileSystem where
  nodes := []
  workingDirectory := some []
  distinct := .nil
  named := by simp
  storable := by simp
  rooted := by simp
  standing := by simp

/-- The node at a location. The top directory is always there. -/
def node? (fs : FileSystem) : Location → Option Node
  | [] => some .directory
  | location => fs.nodes.lookup location

/-- Tests for the location of a directory. -/
def isDirectory (fs : FileSystem) (location : Location) : Bool :=
  match fs.node? location with
  | some .directory => true
  | _ => false

/-- The entries of a directory with their nodes, in the order of the host. -/
def entries (fs : FileSystem) (dir : Location) : List (Name × Node) :=
  fs.nodes.filterMap fun (location, node) =>
    match location with
    | [] => none
    | name :: parent => if parent = dir then some (name, node) else none

/-- A table with another node at a location: in its old place, or at the end if the location is
new. -/
def putNode (location : Location) (node : Node) :
    List (Location × Node) → List (Location × Node)
  | [] => [(location, node)]
  | entry :: rest =>
    if entry.1 = location then (location, node) :: rest else entry :: putNode location node rest

/-- Putting a node somewhere adds its location, if it is a new one. -/
theorem mem_keys_putNode {location other : Location} {node : Node}
    {table : List (Location × Node)} :
    other ∈ (putNode location node table).map Prod.fst ↔
      other = location ∨ other ∈ table.map Prod.fst := by
  induction table with
  | nil => simp [putNode]
  | cons entry rest ih =>
    rw [putNode]
    split
    · next same => simp [same]
    · rw [List.map_cons, List.mem_cons, ih, List.map_cons, List.mem_cons, or_left_comm]

/-- Every location is in the table once, also if the node has replaced another one. -/
theorem nodup_keys_putNode {location : Location} {node : Node} {table : List (Location × Node)}
    (h : (table.map Prod.fst).Nodup) : ((putNode location node table).map Prod.fst).Nodup := by
  induction table with
  | nil => simp [putNode]
  | cons entry rest ih =>
    have ⟨fresh, tail⟩ := List.nodup_cons.1 h
    rw [putNode]
    split
    · next same => exact List.nodup_cons.2 ⟨same ▸ fresh, tail⟩
    · next other =>
      refine List.nodup_cons.2 ⟨fun mem => ?_, ih tail⟩
      rcases mem_keys_putNode.1 mem with same | mem
      · exact other same
      · exact fresh mem

/-- The node is in the table at its location. -/
theorem mem_putNode {location : Location} {node : Node} {table : List (Location × Node)} :
    (location, node) ∈ putNode location node table := by
  induction table with
  | nil => simp [putNode]
  | cons entry rest ih =>
    rw [putNode]
    split
    · exact List.mem_cons_self
    · exact List.mem_cons_of_mem _ ih

/-- Nothing else has come into the table. -/
theorem eq_or_mem_of_mem_putNode {location : Location} {node : Node} {entry : Location × Node}
    {table : List (Location × Node)} (mem : entry ∈ putNode location node table) :
    entry = (location, node) ∨ entry ∈ table := by
  induction table with
  | nil => exact .inl (List.mem_singleton.1 mem)
  | cons head rest ih =>
    rw [putNode] at mem
    split at mem
    · exact (List.mem_cons.1 mem).imp_right (List.mem_cons_of_mem head)
    · rcases List.mem_cons.1 mem with rfl | inRest
      · exact .inr List.mem_cons_self
      · exact (ih inRest).imp_right (List.mem_cons_of_mem head)

/-- The entries of all other locations are the same as before. -/
theorem mem_putNode_of_ne {location : Location} {node : Node} {entry : Location × Node}
    {table : List (Location × Node)} (other : entry.1 ≠ location) :
    entry ∈ putNode location node table ↔ entry ∈ table := by
  induction table with
  | nil =>
    have notNew : entry ≠ (location, node) := fun e => other (e ▸ rfl)
    simp [putNode, notNew]
  | cons head rest ih =>
    rw [putNode]
    split
    · next same =>
      have notNew : entry ≠ (location, node) := fun e => other (e ▸ rfl)
      have notOld : entry ≠ head := fun e => other (e ▸ same)
      simp [notNew, notOld]
    · rw [List.mem_cons, List.mem_cons, ih]

/-- An entry is found by its location, since no other entry has the same. -/
theorem lookup_eq_some_of_mem {α β : Type} [BEq α] [LawfulBEq α] {key : α} {value : β}
    {table : List (α × β)} (distinct : (table.map Prod.fst).Nodup) (mem : (key, value) ∈ table) :
    table.lookup key = some value := by
  induction table with
  | nil => cases mem
  | cons head rest ih =>
    obtain ⟨other, _⟩ := head
    have ⟨fresh, tail⟩ := List.nodup_cons.1 distinct
    rcases List.mem_cons.1 mem with same | inRest
    · cases same
      simp
    · have differ : key ≠ other := by
        rintro rfl
        exact fresh (List.mem_map.2 ⟨_, inRest, rfl⟩)
      rw [List.lookup_cons, beq_false_of_ne differ]
      exact ih tail inRest

/-- What is found at a location is an entry of the table. -/
theorem mem_of_lookup_eq_some {location : Location} {node : Node} {table : List (Location × Node)}
    (h : table.lookup location = some node) : (location, node) ∈ table := by
  obtain ⟨before, after, rfl, -⟩ := List.lookup_eq_some_iff.1 h
  simp

/-- Below the top, the node at a location is the one in the table. -/
theorem node?_eq_some_iff {fs : FileSystem} {name : Name} {dir : Location} {node : Node} :
    fs.node? (name :: dir) = some node ↔ (name :: dir, node) ∈ fs.nodes :=
  ⟨mem_of_lookup_eq_some, lookup_eq_some_of_mem fs.distinct⟩

/-- A directory is the top or has an entry in the table. The top has none: it cannot be taken
away. -/
theorem isDirectory_iff {fs : FileSystem} {location : Location} :
    fs.isDirectory location = true ↔ location = [] ∨ (location, Node.directory) ∈ fs.nodes := by
  unfold isDirectory
  cases location with
  | nil => simp [node?]
  | cons name dir =>
    rw [← node?_eq_some_iff]
    cases fs.node? (name :: dir) with
    | none => simp
    | some node => cases node <;> simp

/-- Tests whether a node can be put at a location: the names of the location are proper, it lies in
a directory, and no directory has to make room for the node. -/
def accepts (fs : FileSystem) (location : Location) (node : Node) : Bool :=
  location.all isName && node.isStorable && fs.isDirectory location.tail && !fs.isDirectory location

/-- What is put in the place of no directory leaves all directories where they are: a directory
stands at another location than the new node, so it keeps its row of the table. -/
theorem directory_putNode {fs : FileSystem} {location : Location} {node : Node}
    (noDirectory : ¬ fs.isDirectory location) {dir : Location}
    (old : dir = [] ∨ (dir, Node.directory) ∈ fs.nodes) :
    dir = [] ∨ (dir, Node.directory) ∈ putNode location node fs.nodes := by
  rcases old with top | old
  · exact .inl top
  · have other : dir ≠ location := fun same => noDirectory (isDirectory_iff.2 (.inr (same ▸ old)))
    exact .inr ((mem_putNode_of_ne other).2 old)

/-- What is put in a directory, in the place of no other directory, leaves every node in a
directory. The directory of a node was in the table before, also that of the new one, and
`directory_putNode` keeps it there. -/
theorem rooted_putNode {fs : FileSystem} {location : Location} {node : Node}
    (inDirectory : fs.isDirectory location.tail = true) (noDirectory : ¬ fs.isDirectory location)
    {name : Name} {dir : Location}
    (mem : name :: dir ∈ (putNode location node fs.nodes).map Prod.fst) :
    dir = [] ∨ (dir, Node.directory) ∈ putNode location node fs.nodes := by
  refine directory_putNode noDirectory ?_
  rcases mem_keys_putNode.1 mem with rfl | mem
  · exact isDirectory_iff.1 inDirectory
  · exact fs.rooted name dir mem

/-- The file system with another node at a location. A new node comes last in its directory. Nothing
changes if the node cannot be put there. -/
def put (fs : FileSystem) (location : Location) (node : Node) : FileSystem :=
  if fits : fs.accepts location node then
    { fs with
      nodes := putNode location node fs.nodes
      distinct := nodup_keys_putNode fs.distinct
      named := fun other mem name inOther => by
        simp only [accepts, Bool.and_eq_true] at fits
        rcases mem_keys_putNode.1 mem with rfl | mem
        · exact List.all_eq_true.1 fits.1.1.1 name inOther
        · exact fs.named other mem name inOther
      storable := fun entry mem => by
        simp only [accepts, Bool.and_eq_true] at fits
        rcases eq_or_mem_of_mem_putNode mem with rfl | mem
        · exact fits.1.1.2
        · exact fs.storable entry mem
      rooted := fun name dir mem => by
        simp only [accepts, Bool.and_eq_true, Bool.not_eq_true'] at fits
        exact rooted_putNode fits.1.2 (by simp [fits.2]) mem
      standing := fun home isHome => by
        simp only [accepts, Bool.and_eq_true, Bool.not_eq_true'] at fits
        exact directory_putNode (by simp [fits.2]) (fs.standing home isHome) }
  else fs

/-- The file system with another working directory, or with none if there is no directory at that
location. -/
def enter (fs : FileSystem) (location : Location) : FileSystem :=
  { fs with
    workingDirectory := if fs.isDirectory location then some location else none
    standing := fun home isHome => by
      obtain ⟨found, same⟩ := Option.ite_none_right_eq_some.1 isHome
      exact isDirectory_iff.1 (Option.some.inj same ▸ found) }

/-- The content of the file at a location. -/
def contentAt (fs : FileSystem) (location : Location) : Content :=
  match fs.node? location with
  | some (.file content) => content
  | some .directory => .error .isADirectory
  | _ => .error .notFound

/-- A location as an absolute path. -/
def display (location : Location) : Text :=
  match location with
  | [] => ['/']
  | _ => location.reverse.flatMap ('/' :: ·)

end FileSystem

end ImportCensus

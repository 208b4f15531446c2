import ImportCensus.CompilationUnit
import ImportCensus.Fault
import ImportCensus.FileSystem.Path

/-!
# `ImportCensus.FileSystem.Walk`: walking through a tree

A walk lists everything below a root, each directory followed at once by what is in it. Links are
followed: a link to a file is a file, a link to a directory is entered, a link without a target is
dangling. A link to a directory that lies on the way from the root to the link would lead in a
circle; there, and where a link cannot be followed for another reason, the walk breaks.

A link is followed from the directory that holds it. The bounds that a host sets to the links and
the bytes of one path hold for each link by itself here, and not for the whole way from the root. A
path that keeps within them leads to what the walk has met there, which `sourceFile` looks up.

Only links are compared with the directories above them. That is enough for the walk to end: each
link which is entered leads to a location that is not yet on the way, and between two links the
walk goes down by names that are in the table.

- `FileSystem.walkFrom`: the items below a directory, by well-founded recursion.
-/

set_option autoImplicit false

namespace ImportCensus

/-- A file that a walk has met, or that a path leads to: its path, its name, and what reading it
gives. -/
structure SourceFile where
  path : Text
  name : Name
  content : Content

/-- What a walk meets. -/
inductive WalkItem
  | file (file : SourceFile)
  | directory (path : Text)
  /-- A link whose target is missing. -/
  | dangling (path : Text)
  /-- An entry at which the walk cannot go on. -/
  | broken (cause : WalkFault)

/-- A directory on the way of a walk: where it is, and the path by which it was entered. -/
structure Stop where
  location : Location
  path : Text

/-- What a walk does at an entry: it passes an item on, or it enters a directory. -/
inductive WalkStep
  | emit (item : WalkItem)
  | enter (stop : Stop)

namespace FileSystem

/-- The file that a path leads to. -/
def sourceFile (fs : FileSystem) (path : Text) : SourceFile :=
  ⟨path, Path.fileName path, fs.read path⟩

/-- The entries of a directory in the order of the walk: that of the host, or that of their
names. -/
def listing (fs : FileSystem) (sorted : Bool) (dir : Location) : List (Name × Node) :=
  if sorted then (fs.entries dir).mergeSort fun a b => !decide (b.1 < a.1) else fs.entries dir

/-- What to do at an entry of the directory `here`, which was reached through the directories
`above`, the nearest one first. -/
def walkStep (fs : FileSystem) (here : Stop) (above : List Stop) (name : Name) (node : Node) :
    WalkStep :=
  let path := Path.join here.path name
  match node with
  | .file content => .emit (.file ⟨path, name, content⟩)
  | .directory => .enter ⟨name :: here.location, path⟩
  | .link target =>
    match fs.locateTarget here.location target with
    | .error .notFound => .emit (.dangling path)
    | .error cause => .emit (.broken (.unreachable path cause))
    | .ok location =>
      match fs.node? location with
      | some .directory =>
        match (here :: above).find? (·.location == location) with
        | some ancestor => .emit (.broken (.loop path ancestor.path))
        | none => .enter ⟨location, path⟩
      | _ => .emit (.file ⟨path, name, fs.contentAt location⟩)

/-- The top and all locations in the table. -/
def locations (fs : FileSystem) : List Location := [] :: fs.nodes.map Prod.fst

/-- The number of locations at which none of the given directories is. -/
def locationsLeft (fs : FileSystem) (stops : List Stop) : Nat :=
  fs.locations.countP fun location => !stops.any (·.location == location)

/-- The greatest number of names in a location. -/
def height (fs : FileSystem) : Nat := (fs.locations.map List.length).max?.getD 0

/-- No location lies deeper than the height of the table. -/
theorem length_le_height {fs : FileSystem} {location : Location} (h : location ∈ fs.locations) :
    location.length ≤ fs.height := by
  have mem : location.length ∈ fs.locations.map List.length := List.mem_map_of_mem h
  unfold height
  cases e : (fs.locations.map List.length).max? with
  | none => rw [List.max?_eq_none_iff.1 e] at mem; exact absurd mem (by simp)
  | some m => exact (List.max?_eq_some_iff.1 e).2 _ mem

/-- The entries of a directory are those of the table one name below it. -/
theorem mem_entries {fs : FileSystem} {dir : Location} {name : Name} {node : Node} :
    (name, node) ∈ fs.entries dir ↔ (name :: dir, node) ∈ fs.nodes := by
  simp only [entries, List.mem_filterMap]
  constructor
  · rintro ⟨⟨location, other⟩, mem, h⟩
    cases location with
    | nil => simp at h
    | cons head parent =>
      simp only [Option.ite_none_right_eq_some, Option.some.injEq, Prod.mk.injEq] at h
      obtain ⟨rfl, rfl, rfl⟩ := h
      exact mem
  · intro mem
    exact ⟨(name :: dir, node), mem, by simp⟩

/-- Sorting a listing neither adds nor drops an entry. -/
theorem mem_listing {fs : FileSystem} {sorted : Bool} {dir : Location} {entry : Name × Node} :
    entry ∈ fs.listing sorted dir ↔ entry ∈ fs.entries dir := by
  unfold listing
  split
  · exact List.mem_mergeSort
  · exact .rfl

/-- Where a node stands there is a location of the table, or the top. -/
theorem mem_locations_of_node? {fs : FileSystem} {location : Location} {node : Node}
    (h : fs.node? location = some node) : location ∈ fs.locations := by
  cases location with
  | nil => simp [locations]
  | cons name parent =>
    exact List.mem_cons_of_mem _ (List.mem_map_of_mem (node?_eq_some_iff.1 h))

/-- A test that fewer members pass is passed less often, if there is a member that tells the two
apart. -/
theorem countP_lt {α : Type} {p q : α → Bool} {l : List α} (imp : ∀ x, p x = true → q x = true)
    {a : α} (mem : a ∈ l) (hp : p a = false) (hq : q a = true) : l.countP p < l.countP q := by
  induction l with
  | nil => cases mem
  | cons x rest ih =>
    rcases List.mem_cons.1 mem with rfl | inRest
    · rw [List.countP_cons_of_neg (by simp [hp]), List.countP_cons_of_pos hq]
      exact Nat.lt_succ_of_le (List.countP_mono_left fun y _ => imp y)
    · have less := ih inRest
      by_cases hx : p x = true
      · rw [List.countP_cons_of_pos hx, List.countP_cons_of_pos (imp x hx)]
        omega
      · rw [List.countP_cons_of_neg hx, List.countP_cons]
        omega

/-- One more directory on the way does not leave more locations that are not on it. -/
theorem locationsLeft_cons_le (fs : FileSystem) (stop : Stop) (stops : List Stop) :
    fs.locationsLeft (stop :: stops) ≤ fs.locationsLeft stops :=
  List.countP_mono_left fun location _ => by simp

/-- It leaves fewer if it is a new one. This is what bounds the links that a walk can enter. -/
theorem locationsLeft_cons_lt {fs : FileSystem} {stop : Stop} {stops : List Stop}
    (known : stop.location ∈ fs.locations) (new : ∀ s ∈ stops, s.location ≠ stop.location) :
    fs.locationsLeft (stop :: stops) < fs.locationsLeft stops :=
  countP_lt (fun location => by simp) known (by simp) (by simpa using new)

/-- Entering a directory leaves fewer locations that are not on the way, or goes down by a name of
the table. -/
theorem walkStep_decreasing {fs : FileSystem} {here next : Stop} {above : List Stop} {name : Name}
    {node : Node} (mem : (name, node) ∈ fs.entries here.location)
    (h : fs.walkStep here above name node = .enter next) :
    Prod.Lex (· < ·) (· < ·)
      (fs.locationsLeft (next :: here :: above), fs.height - next.location.length)
      (fs.locationsLeft (here :: above), fs.height - here.location.length) := by
  unfold walkStep at h
  split at h
  · cases h
  · -- A directory lies one name deeper, and no location is deeper than the height of the table.
    cases h
    have below : (name :: here.location) ∈ fs.locations :=
      List.mem_cons_of_mem _ (List.mem_map_of_mem (mem_entries.1 mem))
    have bound := length_le_height below
    simp only [List.length_cons] at bound
    rcases Nat.lt_or_eq_of_le (fs.locationsLeft_cons_le ⟨name :: here.location, _⟩ (here :: above))
      with less | same
    · exact .left _ _ less
    · rw [same]
      exact .right _ (by simp only [List.length_cons]; omega)
  · split at h
    · cases h
    · cases h
    · split at h
      · next isDir =>
        split at h
        · cases h
        · next absent =>
          -- A link is entered only if no directory on the way stands where it leads.
          cases h
          refine .left _ _ (locationsLeft_cons_lt (mem_locations_of_node? isDir) ?_)
          intro s hs same
          have := List.find?_eq_none.1 absent s hs
          simp [same] at this
      · cases h

/-- The items below the directory `here`, which was reached through the directories `above`. -/
def walkFrom (fs : FileSystem) (sorted : Bool) (here : Stop) (above : List Stop) :
    List WalkItem :=
  (fs.listing sorted here.location).attach.flatMap fun ⟨(name, node), _mem⟩ =>
    match _step : fs.walkStep here above name node with
    | .emit item => [item]
    | .enter next => .directory next.path :: walkFrom fs sorted next (here :: above)
termination_by (fs.locationsLeft (here :: above), fs.height - here.location.length)
decreasing_by exact walkStep_decreasing (mem_listing.1 _mem) _step

/-- The items of a walk from a root, the root itself included. -/
def walk (fs : FileSystem) (sorted : Bool) (root : Stop) : List WalkItem :=
  .directory root.path :: fs.walkFrom sorted root []

/-- The directory that a root leads to, from which a walk can start. -/
def checkRoot (fs : FileSystem) (root : Text) : Except Fault Stop :=
  match fs.locate root with
  | .error .notFound => .error (.rootNotFound root)
  | .error cause => .error (.unreadable root cause)
  | .ok location =>
    match fs.node? location with
    | some .directory => .ok ⟨location, root⟩
    | _ => .error (.rootNotADirectory root)

end FileSystem

end ImportCensus

import ImportCensus.FileSystem.Basic

/-!
# `ImportCensus.FileSystem.Path`: what a path leads to

A path is a text. It is followed segment by segment from the working directory, or from the top if
it starts with a slash. Without a working directory only paths from the top lead anywhere. Empty
segments and single dots stay where they are, two dots lead to the parent, and a link is replaced by
the segments of its target. Every step needs a directory to start from, so a slash behind the name
of a file is refused.

At most forty links are followed for one path. This bounds the search also when links form a cycle.

Writing creates a missing last segment. It refuses directories, and a missing name that is followed
by a slash.
-/

set_option autoImplicit false

namespace ImportCensus

namespace Path

/-- A path and a name below it. -/
def join (base : Text) (name : Name) : Text :=
  if base.isEmpty || base.getLast? == some '/' then base ++ name else base ++ '/' :: name

/-- The last segment of a path, which is the name of the file that the path leads to. -/
def fileName (path : Text) : Name := ((path.segments '/').getLast?).getD []

/-- The part of a name behind its last dot. The dot with which a name begins does not count. -/
def extensionOfName? (name : Name) : Option Text :=
  let stem := name.reverse.dropWhile (· != '.')
  if stem.length ≤ 1 ∨ name = ['.', '.'] then none
  else some (name.reverse.takeWhile (· != '.')).reverse

/-- The extension of the last segment of a path that is neither empty nor a single dot. -/
def extension? (path : Text) : Option Text :=
  (((path.segments '/').filter fun segment => segment ≠ [] ∧ segment ≠ ['.']).getLast?).bind
    extensionOfName?

end Path

namespace FileSystem

/-- How many links are followed on the way to one place. -/
def linkLimit : Nat := 40

/-- The greatest length of a name, in bytes. -/
def nameLimit : Nat := 255

/-- The least length that is too great for a path, in bytes. -/
def pathLimit : Nat := 4096

/-- Where a path leads to. -/
inductive Place
  /-- A node of the file system. -/
  | found (location : Location)
  /-- A name that is not taken, in a directory. -/
  | vacant (dir : Location) (name : Name)

/-- Follows segments from a location. With `creating`, a last segment may be missing but may not be
followed by a slash. `links` bounds the links that are followed. -/
def follow (fs : FileSystem) (creating : Bool) (links : Nat) (here : Location) :
    List Text → Except OsError Place
  | [] => .ok (.found here)
  | segment :: rest =>
    match fs.node? here with
    | none => .error .notFound
    | some .directory =>
      if segment = [] ∨ segment = ['.'] then follow fs creating links here rest
      else if segment = ['.', '.'] then follow fs creating links here.tail rest
      -- Whatever the last name leads to, a slash behind it asks for a directory.
      else if creating && !rest.isEmpty && rest.all List.isEmpty then .error .isADirectory
      else if nameLimit < segment.byteLength then .error .nameTooLong
      else
        match fs.node? (segment :: here) with
        | none => if rest.isEmpty then .ok (.vacant here segment) else .error .notFound
        | some (.link target) =>
          -- The segments of the target take the place of the link, in front of what is left.
          match links with
          | 0 => .error .tooManyLinks
          | links + 1 =>
            let start := if target.head? = some '/' then [] else here
            follow fs creating links start (target.segments '/' ++ rest)
        | some _ => follow fs creating links (segment :: here) rest
    | some _ => .error .notADirectory
termination_by segments => (links, segments.length)

/-- Where the segments of a path are followed from: the top if the path begins with a slash, and
otherwise the working directory, if there is one. -/
def start? (fs : FileSystem) (path : Text) : Option Location :=
  if path.head? = some '/' then some [] else fs.workingDirectory

/-- The place that a path leads to. -/
def place (fs : FileSystem) (creating : Bool) (path : Text) : Except OsError Place :=
  if path.contains '\x00' then .error .nulInPath
  else if path.isEmpty then .error .notFound
  else if pathLimit ≤ path.byteLength then .error .nameTooLong
  else
    match fs.start? path with
    | none => .error .notFound
    | some start => follow fs creating linkLimit start (path.segments '/')

/-- The location that a place stands for, if something is there. -/
def Place.location : Place → Except OsError Location
  | .found location => .ok location
  | .vacant _ _ => .error .notFound

/-- The location of the node that a path leads to. -/
def locate (fs : FileSystem) (path : Text) : Except OsError Location :=
  fs.place false path >>= Place.location

/-- The location to which the link `target` in the directory `dir` leads. The link itself counts as
one of those that are followed. -/
def locateTarget (fs : FileSystem) (dir : Location) (target : Text) : Except OsError Location :=
  let start := if target.head? = some '/' then [] else dir
  follow fs false (linkLimit - 1) start (target.segments '/') >>= Place.location

/-- Tests whether a path leads to a file. -/
def isFile (fs : FileSystem) (path : Text) : Bool :=
  match fs.locate path with
  | .ok location => match fs.node? location with
    | some (.file _) => true
    | _ => false
  | .error _ => false

/-- The content of the file that a path leads to. -/
def read (fs : FileSystem) (path : Text) : Content := fs.locate path >>= fs.contentAt

/-- The file system after a file is written: the file that the path leads to has the given bytes,
and nothing else has changed. -/
def write (fs : FileSystem) (path : Text) (bytes : ByteArray) : Except OsError FileSystem := do
  match ← fs.place true path with
  | .vacant dir name => .ok (fs.put (name :: dir) (.file (.ok bytes)))
  | .found location =>
    match fs.node? location with
    | some (.file _) => .ok (fs.put location (.file (.ok bytes)))
    | _ => .error .isADirectory

/-- The absolute path, free of links and dots, of the node that a path leads to. -/
def canonical? (fs : FileSystem) (path : Text) : Option Text :=
  match fs.locate path with
  | .ok location => some (display location)
  | .error _ => none

/-- Creates the directories that are missing on the way along some segments, and gives the location
reached. Stops where something else than a directory is in the way. -/
def createAlong (fs : FileSystem) (here : Location) : List Text → FileSystem × Location
  | [] => (fs, here)
  | segment :: rest =>
    match fs.follow true linkLimit here [segment] with
    | .ok (.found location) => createAlong fs location rest
    | .ok (.vacant dir name) => createAlong (fs.put (name :: dir) .directory) (name :: dir) rest
    | .error _ => (fs, here)

/-- The file system in which a path leads to a directory, with the missing ones created. -/
def createDirectories (fs : FileSystem) (path : Text) : FileSystem :=
  match fs.start? path with
  | none => fs
  | some start => (fs.createAlong start (path.segments '/')).1

/-- The file system with a node put where a path leads, in the place of any other node than a
directory, and in directories that are created as needed. Nothing is put at the end of a link. -/
def putAt (fs : FileSystem) (path : Text) (node : Node) : FileSystem :=
  match fs.start? path with
  | none => fs
  | some start =>
    let segments := path.segments '/'
    let (fs, dir) := fs.createAlong start segments.dropLast
    fs.put (segments.getLastD [] :: dir) node

end FileSystem

end ImportCensus

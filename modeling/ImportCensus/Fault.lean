import ImportCensus.FileSystem.Basic

/-!
# `ImportCensus.Fault`: what ends a run

A fault ends a run. It carries its cause; the wording, the code and the advice that go with it are
functions of it. A file that is not UTF-8 is no fault: it is passed over.
-/

set_option autoImplicit false

namespace ImportCensus

/-- Why a walk through a tree cannot go on at some entry. -/
inductive WalkFault
  /-- The link at `path` cannot be followed. -/
  | unreachable (path : Text) (cause : OsError)
  /-- The link at `child` leads back to the directory that was entered at `ancestor`. -/
  | loop (child ancestor : Text)
  deriving DecidableEq, Repr

/-- The two trees of a run. -/
inductive TreeRole
  | source
  | target
  deriving DecidableEq, Repr

/-- What ends a run. -/
inductive Fault
  | unreadable (path : Text) (cause : OsError)
  | brokenTree (root : Text) (cause : WalkFault)
  | rootNotFound (path : Text)
  | rootNotADirectory (path : Text)
  | invalidSettings (path : Text)
  | unwritableReport (path : Text) (cause : OsError)
  | cancelled
  | noWorkingDirectory
  | rootNotGiven (role : TreeRole)
  deriving DecidableEq, Repr

/-- The wording of a walk's fault. -/
def WalkFault.message : WalkFault → Text
  | .unreachable path cause =>
    "IO error for operation on ".toList ++ path ++ ": ".toList ++ cause.message
  | .loop child ancestor =>
    "File system loop found: ".toList ++ child ++ " points to an ancestor ".toList ++ ancestor

/-- What the user is asked for when a root is missing. -/
def TreeRole.request : TreeRole → Text
  | .source => "Please select source root directory".toList
  | .target => "Please select target root directory".toList

namespace Fault

/-- The wording of a fault. -/
def message : Fault → Text
  | unreadable path cause => "I/O error accessing ".toList ++ path ++ ": ".toList ++ cause.message
  | brokenTree root cause =>
    "Failed to walk directory tree under ".toList ++ root ++ ": ".toList ++ cause.message
  | rootNotFound path => "Root directory not found: ".toList ++ path
  | rootNotADirectory path => "Root is not a directory: ".toList ++ path
  | invalidSettings path => "Invalid configuration in ".toList ++ path
  | unwritableReport path cause =>
    "Failed to write report to ".toList ++ path ++ ": ".toList ++ cause.message
  | cancelled => "Search cancelled".toList
  | noWorkingDirectory => OsError.notFound.message
  | rootNotGiven role =>
    role.request ++ ": no directory given and no terminal to prompt on".toList

/-- The code under which a fault is documented, if it has one. -/
def code? : Fault → Option Text
  | unreadable .. => some "codefinder::io".toList
  | brokenTree .. => some "codefinder::walk".toList
  | rootNotFound .. => some "codefinder::root_not_found".toList
  | rootNotADirectory .. => some "codefinder::not_a_directory".toList
  | invalidSettings .. => some "codefinder::config".toList
  | unwritableReport .. => some "codefinder::report".toList
  | cancelled => some "codefinder::cancelled".toList
  | noWorkingDirectory | rootNotGiven .. => none

/-- The advice that goes with a fault, if there is any. -/
def help? : Fault → Option Text
  | rootNotFound .. =>
    some "pass an existing directory with --source-root / --target-root".toList
  | _ => none

end Fault

end ImportCensus

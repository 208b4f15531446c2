import ImportCensus.Text.Basic
import ImportCensus.Report.Format

/-!
# `ImportCensus.Event`: what a run logs

Events in the order in which they happen make the log of a run. Each has a level, and a console
shows those from some level up.
-/

set_option autoImplicit false

namespace ImportCensus

/-- How important an event is. -/
inductive Level
  | debug
  | info
  | warn
  deriving DecidableEq, Repr

/-- The name of a level. -/
def Level.name : Level → Text
  | .debug => "DEBUG".toList
  | .info => "INFO".toList
  | .warn => "WARN".toList

/-- One thing that happened in a run. -/
inductive Event
  | started (version : Text)
  | loadingSettings (path : Text)
  | collecting (root : Text)
  | classesFound (count : Nat)
  | unitWithoutPackage (name : Text)
  | searching (root : Text)
  | usagesInFile (path : Text) (count : Nat)
  | usedClassesFound (count : Nat)
  | filesFound (root : Text) (count : Nat)
  | danglingLink (path : Text)
  | undecodable (path : Text)
  | converting (format : ReportFormat)
  | suspiciousPath (path : Text)
  | notOpened (path : Text)
  deriving DecidableEq, Repr

namespace Event

/-- How important an event is. -/
def level : Event → Level
  | started .. | collecting .. | classesFound .. | searching .. | usedClassesFound ..
  | converting .. => .info
  | loadingSettings .. | unitWithoutPackage .. | usagesInFile .. | filesFound ..
  | danglingLink .. => .debug
  | undecodable .. | suspiciousPath .. | notOpened .. => .warn

/-- The wording of an event. -/
def message : Event → Text
  | started version => "CodeFinder v".toList ++ version
  | loadingSettings path => "Loading config from ".toList ++ path
  | collecting root => "Collecting possible dependencies in ".toList ++ root
  | classesFound count =>
    Text.ofNat count ++ " possible dependencies found in source directory".toList
  | unitWithoutPackage name => "Ignoring ".toList ++ name ++ " without package".toList
  | searching root => "Checking for usages in ".toList ++ root
  | usagesInFile path count => path ++ ": ".toList ++ Text.ofNat count ++ " usages".toList
  | usedClassesFound count => "Usages of ".toList ++ Text.ofNat count ++ " classes found".toList
  | filesFound root count =>
    "Found ".toList ++ Text.ofNat count ++ " Java files under ".toList ++ root
  | danglingLink path => "Skipping dangling symlink ".toList ++ path
  | undecodable path => "Decoding error, skipping file ".toList ++ path
  | converting format =>
    "Converting found usages to ".toList ++ format.title ++ " format".toList
  | suspiciousPath path => "Skipping auto-open for suspicious path: ".toList ++ path
  | notOpened path => "Could not open report automatically: ".toList ++ path

/-- An event as a line of a list of events: its level and its wording. -/
def summary (event : Event) : Text := event.level.name ++ ' ' :: event.message

end Event

end ImportCensus

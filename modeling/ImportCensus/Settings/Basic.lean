import ImportCensus.Report.Format

/-!
# `ImportCensus.Settings.Basic`: the settings of a run

A settings file assigns values to keys, in any order. What a value can stand for depends on how it
is written, so the reader of a format hands over `SettingValue`s: what the value is as a path, as a
word and as a truth value. Which of the three counts is decided by the key.

Keys that are unknown, keys that are assigned twice, and values that do not fit their key are
refused. What is not assigned keeps its default.
-/

set_option autoImplicit false

namespace ImportCensus

/-- The settings of a run. -/
structure Settings where
  /-- The tree whose classes may be imported. -/
  sourceRoot : Option Text := none
  /-- The tree whose imports are looked at. -/
  targetRoot : Option Text := none
  /-- The file to which the report is written. -/
  output : Option Text := none
  format : ReportFormat := .csv
  /-- Whether the report is shown once it is written. -/
  openReport : Bool := true
  /-- Whether directories are listed in the order of names. -/
  sortEntries : Bool := false
  parallel : Bool := true
  deriving DecidableEq, Repr

/-- What a value in a settings file can stand for. -/
structure SettingValue where
  /-- The value as a path, where `some none` stands for an explicit lack of one. -/
  path? : Option (Option Text)
  /-- The value as a word. -/
  word? : Option Text
  /-- The value as a truth value. -/
  truth? : Option Bool
  deriving DecidableEq, Repr

/-- The keys of a settings file. -/
inductive SettingKey
  | sourceRoot
  | targetRoot
  | output
  | format
  | openReport
  | sortEntries
  | parallel
  deriving DecidableEq, Repr

namespace SettingKey

/-- All keys. -/
def all : List SettingKey :=
  [sourceRoot, targetRoot, output, format, openReport, sortEntries, parallel]

/-- The name of a key. -/
def name : SettingKey → Text
  | sourceRoot => "source_root".toList
  | targetRoot => "target_root".toList
  | output => "output".toList
  | format => "format".toList
  | openReport => "open_report".toList
  | sortEntries => "sort_entries".toList
  | parallel => "parallel".toList

/-- The key of a name. -/
def ofName? (name : Text) : Option SettingKey := all.find? fun key => key.name = name

end SettingKey

namespace Settings

/-- The settings with a value for one key, if the value fits. -/
def assign (settings : Settings) (key : SettingKey) (value : SettingValue) : Option Settings :=
  match key with
  | .sourceRoot => value.path?.map fun path => { settings with sourceRoot := path }
  | .targetRoot => value.path?.map fun path => { settings with targetRoot := path }
  | .output => value.path?.map fun path => { settings with output := path }
  | .format =>
    (value.word?.bind ReportFormat.ofKeyword?).map fun format => { settings with format := format }
  | .openReport => value.truth?.map fun truth => { settings with openReport := truth }
  | .sortEntries => value.truth?.map fun truth => { settings with sortEntries := truth }
  | .parallel => value.truth?.map fun truth => { settings with parallel := truth }

/-- The settings after some assignments, none of them to one of the keys in `taken`. -/
def assignAll (settings : Settings) (taken : List SettingKey) :
    List (Text × SettingValue) → Option Settings
  | [] => some settings
  | (name, value) :: rest =>
    match SettingKey.ofName? name with
    | none => none
    | some key =>
      if key ∈ taken then none
      else (settings.assign key value).bind fun next => next.assignAll (key :: taken) rest

/-- The settings that a list of assignments makes of the defaults. -/
def ofAssignments? (assignments : List (Text × SettingValue)) : Option Settings :=
  ({} : Settings).assignAll [] assignments

end Settings

end ImportCensus

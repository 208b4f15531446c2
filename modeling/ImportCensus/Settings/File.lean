import ImportCensus.FileSystem.Path
import ImportCensus.Settings.Toml
import ImportCensus.Settings.Yaml.Reading
import ImportCensus.Traced

/-!
# `ImportCensus.Settings.File`: settings files

A settings file is YAML if its extension says so and TOML otherwise. Where no file is named, the
first of the standard names that leads to a file is taken, and if there is none the defaults hold. A
file that was chosen has to be read: if it is broken, no other one takes its place.
-/

set_option autoImplicit false

namespace ImportCensus

/-- The extensions of YAML files. -/
def yamlExtensions : List Text := ["yml".toList, "yaml".toList]

/-- Tests for the path of a YAML file. -/
def isYamlPath (path : Text) : Bool := (Path.extension? path).any yamlExtensions.contains

/-- The settings in the text of a file with the given path. -/
def Settings.ofText? (path text : Text) : Option Settings :=
  if isYamlPath path then Settings.ofYaml? text else Settings.ofToml? text

/-- The names of settings files that are looked for, the first choice first. -/
def settingsFileNames : List Name :=
  [".codefinder.toml".toList, "codefinder.toml".toList, ".codefinder.yml".toList,
   ".codefinder.yaml".toList]

namespace FileSystem

/-- The settings in a file. -/
def readSettings (fs : FileSystem) (path : Text) : Traced Settings :=
  match fs.read path with
  | .error cause => Traced.fail (.unreadable path cause)
  | .ok bytes =>
    match Text.decode? bytes with
    | none => Traced.fail (.unreadable path .notUtf8)
    | some text =>
      match Settings.ofText? path text with
      | none => Traced.fail (.invalidSettings path)
      | some settings => pure settings

/-- The path of the settings file in a directory, if there is one. -/
def settingsFile? (fs : FileSystem) (dir : Text) : Option Text :=
  (settingsFileNames.map (Path.join dir)).find? fs.isFile

/-- The settings that hold in a directory. -/
def findSettings (fs : FileSystem) (dir : Text) : Traced Settings :=
  match fs.settingsFile? dir with
  | none => pure {}
  | some path => do
    Traced.logEvent (.loadingSettings path)
    fs.readSettings path

end FileSystem

end ImportCensus

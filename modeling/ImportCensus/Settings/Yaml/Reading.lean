import ImportCensus.Settings.Basic
import ImportCensus.Settings.Yaml.Document
import ImportCensus.Text.Blank

/-!
# `ImportCensus.Settings.Yaml.Reading`: settings in YAML

What a scalar stands for depends on its style and its tag, and on the key that it belongs to. Only a
plain scalar can stand for a lack of a path, and, unless a tag says so, only a plain scalar can
stand for a truth value. Numbers and truth values make paths as they are written.
-/

set_option autoImplicit false

namespace ImportCensus

namespace Yaml

/-- The words that stand for a lack of a value. -/
def nullWords : List Text := ["null".toList, "Null".toList, "NULL".toList, ['~']]

/-- The truth value that a word stands for. -/
def truthOfWord? (word : Text) : Option Bool :=
  if word ∈ ["true".toList, "True".toList, "TRUE".toList] then some true
  else if word ∈ ["false".toList, "False".toList, "FALSE".toList] then some false
  else none

namespace Scalar

/-- Tests for a plain scalar that says that there is no value, or is left out. -/
def isNull (scalar : Scalar) : Bool :=
  scalar.style = .plain ∧ (scalar.content = [] ∨ scalar.content ∈ nullWords)

/-- The scalar as a path. -/
def path? (scalar : Scalar) : Option (Option Text) :=
  -- What is quoted or written as a block is a path as it stands, whatever its tag says.
  if scalar.style ≠ .plain then some (some scalar.content)
  else if scalar.tag = some (.core "null".toList) then
    if scalar.content ∈ nullWords then some none else none
  else if scalar.tag.isNone ∧ scalar.isNull then some none
  else some (some scalar.content)

/-- The scalar as a word. The tag itself can be the word, and then nothing else is said. -/
def word? (scalar : Scalar) : Option Text :=
  match scalar.tag with
  | some (.own name) => if scalar.isNull then some name else none
  | _ => some scalar.content

/-- The scalar as a truth value. -/
def truth? (scalar : Scalar) : Option Bool :=
  match scalar.style with
  | .plain => truthOfWord? scalar.content
  | .literal =>
    if scalar.tag = some (.core "bool".toList) then truthOfWord? scalar.content else none
  | _ => none

/-- What the scalar can stand for. -/
def setting (scalar : Scalar) : SettingValue := ⟨scalar.path?, scalar.word?, scalar.truth?⟩

end Scalar

end Yaml

/-- The settings in a YAML document. A blank document assigns nothing. -/
def Settings.ofYaml? (document : Text) : Option Settings :=
  if document.isBlank then some {}
  else
    (Yaml.read? document).bind fun entries =>
      Settings.ofAssignments? (entries.map fun (key, value) => (key.content, value.setting))

end ImportCensus

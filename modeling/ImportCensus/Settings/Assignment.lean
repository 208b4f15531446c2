import ImportCensus.Settings.Basic
import ImportCensus.Text.Hex

/-!
# `ImportCensus.Settings.Assignment`: written assignments

An assignment gives a string or a truth value to a key. There are two formats in which assignments
are written one on a line, and both write strings between double quotes, with an escape for the
quote, the backslash and whatever is not printable ASCII. The formats differ in the sign between key
and value.
-/

set_option autoImplicit false

namespace ImportCensus

/-- A value as it is written in a settings file. -/
inductive Literal
  | string (content : Text)
  | boolean (truth : Bool)
  deriving DecidableEq, Repr

namespace Literal

/-- What the value can stand for. -/
def setting : Literal → SettingValue
  | string content => ⟨some (some content), some content, none⟩
  | boolean truth => ⟨none, none, some truth⟩

/-- The written form of a character in a string. -/
def escapeChar (c : Char) : Text :=
  if c = '\x22' ∨ c = '\x5c' then ['\x5c', c]
  else if ' ' ≤ c ∧ c ≤ '~' then [c]
  else if c.toNat < 0x10000 then '\x5c' :: 'u' :: Text.hexDigits 4 c.toNat
  else '\x5c' :: 'U' :: Text.hexDigits 8 c.toNat

/-- The written form of a value. -/
def text : Literal → Text
  | string content => '\x22' :: content.flatMap escapeChar ++ ['\x22']
  | boolean true => "true".toList
  | boolean false => "false".toList

end Literal

/-- A key and the value that is given to it. -/
structure Assignment where
  key : Text
  value : Literal
  deriving DecidableEq, Repr

namespace Assignment

/-- The line of an assignment in TOML. -/
def tomlLine (assignment : Assignment) : Text :=
  assignment.key ++ " = ".toList ++ assignment.value.text ++ ['\n']

/-- The line of an assignment in YAML. -/
def yamlLine (assignment : Assignment) : Text :=
  assignment.key ++ ": ".toList ++ assignment.value.text ++ ['\n']

/-- The document in TOML with the given assignments. -/
def toml (assignments : List Assignment) : Text := assignments.flatMap tomlLine

/-- The document in YAML with the given assignments. -/
def yaml (assignments : List Assignment) : Text := assignments.flatMap yamlLine

/-- Tests for a key that is written without quotes: letters and underscores, at least one. -/
def isBareKey (key : Text) : Bool := !key.isEmpty && key.all fun c => c.isAlpha || c == '_'

end Assignment

/-- The settings that a list of assignments makes of the defaults. -/
def Settings.ofWritten? (assignments : List Assignment) : Option Settings :=
  Settings.ofAssignments? (assignments.map fun assignment =>
    (assignment.key, assignment.value.setting))

end ImportCensus

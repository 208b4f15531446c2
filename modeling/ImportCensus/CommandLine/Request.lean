import ImportCensus.Report.Format
import ImportCensus.Report.Summary

/-!
# `ImportCensus.CommandLine.Request`: what a command line asks for

A command line sets parameters, which take a value, and throws switches. Everything that it leaves
out is left to the settings file, or has a default.

A command line can also ask for the help text or the version, or be in error. Then no run starts.
-/

set_option autoImplicit false

namespace ImportCensus

/-- The shells for which there are completion scripts. -/
inductive Shell
  | bash
  | elvish
  | fish
  | powershell
  | zsh
  deriving DecidableEq, Repr

namespace Shell

/-- All shells. -/
def all : List Shell := [bash, elvish, fish, powershell, zsh]

/-- The word for a shell. -/
def keyword : Shell → Text
  | bash => "bash".toList
  | elvish => "elvish".toList
  | fish => "fish".toList
  | powershell => "powershell".toList
  | zsh => "zsh".toList

/-- The shell that a word stands for. -/
def ofKeyword? (word : Text) : Option Shell := all.find? fun shell => shell.keyword = word

end Shell

/-- Options that take a value. -/
inductive Parameter
  | sourceRoot
  | targetRoot
  | config
  | output
  | format
  | parallel
  | top
  | completions
  deriving DecidableEq, Repr

/-- Options that are just given or not. -/
inductive Switch
  | skipConfirm
  | noOpen
  | sorted
  | verbose
  | quiet
  deriving DecidableEq, Repr

/-- What a command line asks for. -/
structure Request where
  sourceRoot : Option Text := none
  targetRoot : Option Text := none
  config : Option Text := none
  output : Option Text := none
  format : Option ReportFormat := none
  parallel : Option Bool := none
  /-- How many most used classes the summary lists. -/
  top : Nat := Summary.defaultLimit
  completions : Option Shell := none
  skipConfirm : Bool := false
  noOpen : Bool := false
  sorted : Bool := false
  verbose : Bool := false
  quiet : Bool := false
  deriving DecidableEq, Repr

/-- Why a command line starts no run. -/
inductive Refusal
  | helpWanted
  | versionWanted
  /-- A word that is neither an option nor the value of one. -/
  | unknownArgument
  /-- A value that is missing, empty where a path is needed, or none of the possible ones. -/
  | unacceptableValue
  /-- A value that is no number, or too great. -/
  | notANumber
  /-- An option that is given twice. -/
  | repeated
  /-- A value for a switch. -/
  | unexpectedValue
  deriving DecidableEq, Repr

/-- The greatest number on a command line. -/
def countLimit : Nat := UInt64.size - 1

/-- The number that a word stands for: decimal digits, with a plus sign in front if wanted. -/
def countOfWord? (word : Text) : Option Nat :=
  let digits := match word with
    | '+' :: digits => digits
    | _ => word
  if digits.isEmpty ∨ !digits.all Char.isDigit then none
  else
    let count := digits.foldl (fun count c => 10 * count + (c.toNat - '0'.toNat)) 0
    if count ≤ countLimit then some count else none

/-- The truth value that a word on a command line stands for. -/
def truthOfWord? (word : Text) : Option Bool :=
  if word = "true".toList then some true
  else if word = "false".toList then some false
  else none

namespace Request

/-- The request with a value for a parameter, if the value is acceptable. -/
def set (request : Request) (parameter : Parameter) (value : Text) : Except Refusal Request :=
  let path : Except Refusal Text :=
    if value.isEmpty then .error .unacceptableValue else .ok value
  let oneOf {α : Type} (choice : Option α) : Except Refusal α :=
    choice.elim (.error .unacceptableValue) .ok
  match parameter with
  | .sourceRoot => path.map fun path => { request with sourceRoot := some path }
  | .targetRoot => path.map fun path => { request with targetRoot := some path }
  | .config => path.map fun path => { request with config := some path }
  | .output => path.map fun path => { request with output := some path }
  | .format =>
    (oneOf (ReportFormat.ofKeyword? value)).map fun format => { request with format := some format }
  | .parallel =>
    (oneOf (truthOfWord? value)).map fun truth => { request with parallel := some truth }
  | .completions =>
    (oneOf (Shell.ofKeyword? value)).map fun shell => { request with completions := some shell }
  | .top =>
    match countOfWord? value with
    | some count => .ok { request with top := count }
    | none => .error .notANumber

/-- The request with a switch thrown. -/
def throwSwitch (request : Request) : Switch → Request
  | .skipConfirm => { request with skipConfirm := true }
  | .noOpen => { request with noOpen := true }
  | .sorted => { request with sorted := true }
  | .verbose => { request with verbose := true }
  | .quiet => { request with quiet := true }

end Request

end ImportCensus

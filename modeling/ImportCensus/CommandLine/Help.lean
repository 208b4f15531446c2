import ImportCensus.CommandLine.Parsing

/-!
# `ImportCensus.CommandLine.Help`: texts about the command line

The help text, the line with the version, and scripts with which shells complete option names. All
of them are made from the table of options.
-/

set_option autoImplicit false

namespace ImportCensus

/-- The name of the program on a command line. -/
def programName : Text := "codefinder".toList

/-- The version of the program. -/
def programVersion : Text := "0.1.0".toList

/-- The line with the version. -/
def versionText : Text := programName ++ ' ' :: programVersion ++ ['\n']

/-- The lines of the help text about one option. -/
def CommandOption.helpText (option : CommandOption) : Text :=
  let short := match option.short with
    | some letter => ['-', letter, ',', ' ']
    | none => "    ".toList
  let value := match option.action with
    | .set _ => " <VALUE>".toList
    | _ => []
  "  ".toList ++ short ++ "--".toList ++ option.long ++ value ++ "\n          ".toList
    ++ option.help ++ ['\n']

/-- The help text. -/
def helpText : Text :=
  "Finds the usages of code from the source directory in the target directory\n\n".toList
    ++ "Usage: ".toList ++ programName ++ " [OPTIONS]\n\nOptions:\n".toList
    ++ commandOptions.flatMap CommandOption.helpText

/-- The long options with their dashes. -/
def longOptions : List Text := commandOptions.map fun option => "--".toList ++ option.long

/-- A script with which a shell completes the names of options. -/
def Shell.completionScript (shell : Shell) : Text :=
  let words := Text.join [' '] longOptions
  let quoted := longOptions.map fun option => '\x27' :: option ++ ['\x27']
  match shell with
  | bash => "complete -W '".toList ++ words ++ "' ".toList ++ programName ++ ['\n']
  | zsh => "compctl -k '(".toList ++ words ++ ")' ".toList ++ programName ++ ['\n']
  | fish => commandOptions.flatMap fun option =>
      "complete -c ".toList ++ programName ++ " -l ".toList ++ option.long ++ ['\n']
  | elvish =>
    "set edit:completion:arg-completer[".toList ++ programName ++ "] = \x7b|@words| put ".toList
      ++ words ++ " \x7d\n".toList
  | powershell =>
    "Register-ArgumentCompleter -Native -CommandName ".toList ++ programName
      ++ " -ScriptBlock \x7b ".toList ++ Text.join [','] quoted ++ " \x7d\n".toList

end ImportCensus

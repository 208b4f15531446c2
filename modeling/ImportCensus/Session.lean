import ImportCensus.CommandLine.Help
import ImportCensus.Run

/-!
# `ImportCensus.Session`: the program as seen from a shell

A session turns the words of a command line into what the program writes to its standard output and
its standard error, the file system that it leaves behind, and its exit code: 0 if all went well, 1
if the run failed, 2 if the command line was refused.

Events of a level that is high enough are printed as they happen, and so in front of the summary.
Control characters in them that a terminal might act upon are printed as escapes.
-/

set_option autoImplicit false

namespace ImportCensus

/-- What a session leaves behind. -/
structure Session where
  files : FileSystem
  output : Text
  errors : Text
  exitCode : UInt32

namespace Request

/-- Tests whether events of a level are printed. Being quiet wins over being verbose. -/
def showsLevel (request : Request) (level : Level) : Bool :=
  !request.quiet && (request.verbose || level != .debug)

end Request

namespace Event

/-- The digits of a number below 256, in base 16. -/
def hexByte (n : Nat) : Text := [Nat.digitChar (n / 16), Nat.digitChar (n % 16)]

/-- A character as it is printed in a line of the log. -/
def printChar (c : Char) : Text :=
  if c ∈ ['\x1b', '\x07', '\x08', '\x0c', '\x7f'] then '\x5c' :: 'x' :: hexByte c.toNat
  else if 0x80 ≤ c.toNat ∧ c.toNat ≤ 0x9F then "\\u\x7b".toList ++ hexByte c.toNat ++ ['\x7d']
  else [c]

/-- An event as a line of the printed log. -/
def printLine (event : Event) (time : Text) : Text :=
  time ++ ' ' :: event.level.name.padLeft 5 ++ ' ' :: event.message.flatMap printChar ++ ['\n']

end Event

/-- A fault as it is written to the standard error. -/
def Fault.report (fault : Fault) : Text :=
  let line (t : Text) : Text := t ++ ['\n']
  line ("Error: ".toList ++ fault.message)
    ++ (fault.code?.map fun code => line ("  code: ".toList ++ code)).getD []
    ++ (fault.help?.map fun help => line ("  help: ".toList ++ help)).getD []

/-- A refusal as it is written to the standard error. -/
def Refusal.message : Refusal → Text
  | .unknownArgument => "error: unexpected argument\n".toList
  | .unacceptableValue => "error: a value is missing or not possible\n".toList
  | .notANumber => "error: a value is not a number\n".toList
  | .repeated => "error: an argument cannot be used multiple times\n".toList
  | .unexpectedValue => "error: a value for an argument that takes none\n".toList
  | .helpWanted | .versionWanted => []

namespace FileSystem

/-- The session of a request. -/
def serve (fs : FileSystem) (request : Request) (time elapsed : Text) (colored : Bool) : Session :=
  match request.completions with
  | some shell => ⟨fs, shell.completionScript, [], 0⟩
  | none =>
    let aftermath := fs.run request
    let events := (.started programVersion :: aftermath.log).filter fun event =>
      request.showsLevel event.level
    let printed := (aftermath.printout.map (·.render colored elapsed)).getD []
    { files := aftermath.files
      output := (events.flatMap (·.printLine time)) ++ printed
      errors := (aftermath.failure.map Fault.report).getD []
      exitCode := if aftermath.failure.isSome then 1 else 0 }

/-- The session of a command line. -/
def session (fs : FileSystem) (words : List Text) (time elapsed : Text) (colored : Bool) :
    Session :=
  match Request.parse words with
  | .ok request => fs.serve request time elapsed colored
  | .error .helpWanted => ⟨fs, helpText, [], 0⟩
  | .error .versionWanted => ⟨fs, versionText, [], 0⟩
  | .error refusal => ⟨fs, [], refusal.message, 2⟩

end FileSystem

end ImportCensus

import ImportCensus.CommandLine.Request

/-!
# `ImportCensus.CommandLine.Parsing`: reading a command line

Options have a long name behind two dashes, and some a short one of a single letter behind one dash.
A value is attached (`--top=5`, `-oFILE`, `-o=FILE`) or is the next word. Several short switches may
share a dash, and a parameter may be the last of them. Two dashes alone end the options, and after
them no word is accepted.

An attached value is checked at once. A value that is the next word is checked only when the next
option is met, or at the end, so an unknown word right behind it is found first. A word that begins
with a dash is never a value.
-/

set_option autoImplicit false

namespace ImportCensus

/-- What an option does. -/
inductive Action
  | set (parameter : Parameter)
  | throwSwitch (switch : Switch)
  | refuse (refusal : Refusal)
  deriving DecidableEq, Repr

/-- An option: its names, what it does, and a line of help. -/
structure CommandOption where
  long : Text
  short : Option Char
  action : Action
  help : Text

/-- The options of the command line, in the order of the help text. -/
def commandOptions : List CommandOption :=
  [⟨"source-root".toList, none, .set .sourceRoot, "Directory whose classes may be used".toList⟩,
   ⟨"target-root".toList, none, .set .targetRoot, "Directory scanned for usages".toList⟩,
   ⟨"skip-confirm".toList, none, .throwSwitch .skipConfirm,
    "Do not ask for confirmation after prompting for directories".toList⟩,
   ⟨"config".toList, some 'c', .set .config, "Path to configuration file".toList⟩,
   ⟨"output".toList, some 'o', .set .output,
    "Output file (default: dependency_usages.csv)".toList⟩,
   ⟨"format".toList, some 'f', .set .format, "Output format: csv or json".toList⟩,
   ⟨"no-open".toList, none, .throwSwitch .noOpen,
    "Do not open the report with the default application".toList⟩,
   ⟨"sorted".toList, none, .throwSwitch .sorted, "Sort directory listings by name".toList⟩,
   ⟨"parallel".toList, none, .set .parallel, "Scan files in parallel: true or false".toList⟩,
   ⟨"top".toList, none, .set .top,
    "Number of most used classes to show in the summary".toList⟩,
   ⟨"verbose".toList, some 'v', .throwSwitch .verbose, "Verbose output".toList⟩,
   ⟨"quiet".toList, some 'q', .throwSwitch .quiet, "Quiet mode - only errors".toList⟩,
   ⟨"completions".toList, none, .set .completions, "Generate shell completions".toList⟩,
   ⟨"help".toList, some 'h', .refuse .helpWanted, "Print help".toList⟩,
   ⟨"version".toList, some 'V', .refuse .versionWanted, "Print version".toList⟩]

/-- How far a command line has been read. -/
structure ParseState where
  request : Request := {}
  /-- The parameters that have a value, and the switches that are thrown. -/
  given : List Action := []
  /-- The parameter that was met last, and its value if that was met too. -/
  pending : Option (Parameter × Option Text) := none
  /-- Whether the options have ended. -/
  closed : Bool := false
  deriving DecidableEq, Repr

namespace ParseState

/-- The state with a value for a parameter. -/
def store (state : ParseState) (parameter : Parameter) (value : Text) :
    Except Refusal ParseState :=
  if .set parameter ∈ state.given then .error .repeated
  else
    (state.request.set parameter value).map fun request =>
      { state with request := request, given := .set parameter :: state.given }

/-- The state in which nothing is pending. -/
def settle (state : ParseState) : Except Refusal ParseState :=
  match state.pending with
  | none => .ok state
  | some (_, none) => .error .unacceptableValue
  | some (parameter, some value) => { state with pending := none }.store parameter value

/-- The state after an option without an attached value. -/
def takeOption (state : ParseState) (action : Action) : Except Refusal ParseState := do
  let state ← state.settle
  match action with
  | .set parameter => return { state with pending := some (parameter, none) }
  | .refuse refusal => .error refusal
  | .throwSwitch switch =>
    if action ∈ state.given then .error .repeated
    else
      return { state with
        request := state.request.throwSwitch switch
        given := action :: state.given }

/-- The state after an option with an attached value. -/
def takeAttached (state : ParseState) (action : Action) (value : Text) :
    Except Refusal ParseState :=
  match action with
  | .set parameter => do (← state.settle).store parameter value
  | _ => .error .unexpectedValue

/-- The state after a long option, which may have a value attached. -/
def takeLong (state : ParseState) (word : Text) : Except Refusal ParseState :=
  let name := word.takeWhile (· != '=')
  match commandOptions.find? (·.long = name) with
  | none => .error .unknownArgument
  | some option =>
    match word.dropWhile (· != '=') with
    | _ :: value => state.takeAttached option.action value
    | [] => state.takeOption option.action

/-- The state after the short options behind a dash. What follows a parameter is its value. -/
def takeShorts (state : ParseState) : Text → Except Refusal ParseState
  | [] => .ok state
  | letter :: rest =>
    match commandOptions.find? (·.short = some letter) with
    | none => .error .unknownArgument
    | some option =>
      -- Once a parameter is met, all that follows in the word is its value.
      match option.action, rest with
      | .set parameter, '=' :: value => state.takeAttached (.set parameter) value
      | .set parameter, _ :: _ => state.takeAttached (.set parameter) rest
      | action, _ => do takeShorts (← state.takeOption action) rest

/-- The state after a word that is no option. -/
def takeValue (state : ParseState) (word : Text) : Except Refusal ParseState :=
  match state.pending with
  | some (parameter, none) =>
    if state.closed then .error .unknownArgument
    else .ok { state with pending := some (parameter, some word) }
  | _ => .error .unknownArgument

/-- The state after a word. -/
def take (state : ParseState) (word : Text) : Except Refusal ParseState :=
  if state.closed then state.takeValue word
  else
    match word with
    | ['-', '-'] => .ok { state with closed := true }
    | '-' :: '-' :: rest => state.takeLong rest
    | '-' :: letter :: rest => state.takeShorts (letter :: rest)
    -- A dash alone is a word like any other.
    | _ => state.takeValue word

end ParseState

/-- What a command line asks for, or why it starts no run. The first problem from the left
counts. -/
def Request.parse (words : List Text) : Except Refusal Request := do
  let state ← words.foldlM ParseState.take {}
  return (← state.settle).request

end ImportCensus

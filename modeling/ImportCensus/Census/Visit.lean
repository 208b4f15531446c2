import ImportCensus.FileSystem.Walk
import ImportCensus.Traced

/-!
# `ImportCensus.Census.Visit`: an action on each compilation unit

A visit hands the compilation units that a walk meets to an action, one after the other. The action
keeps a state, logs events and may fail. State and log outlive a failure, so a visit that fails
still says how far it came.

Directories, other files and dangling links are passed over, the last with an event. The visit ends
at the first item at which the walk breaks, or at the first unit at which the action fails.
-/

set_option autoImplicit false

namespace ImportCensus

/-- What an action or a visit leaves behind. -/
structure Visit (σ : Type) where
  state : σ
  log : List Event
  result : Except Fault Unit

namespace Visit

variable {σ : Type}

/-- A visit at whose beginning some events were logged. -/
def afterLog (events : List Event) (visit : Visit σ) : Visit σ :=
  { visit with log := events ++ visit.log }

/-- The state at the end, if the visit has come there. -/
def traced (visit : Visit σ) : Traced σ := ⟨visit.log, visit.result.map fun _ => visit.state⟩

/-- The action that carries out a traced computation and keeps the old state if that fails. -/
def ofTraced (state : σ) (computation : Traced σ) : Visit σ :=
  match computation.result with
  | .ok next => ⟨next, computation.log, .ok ()⟩
  | .error fault => ⟨state, computation.log, .error fault⟩

end Visit

/-- Hands the compilation units among the items of a walk to an action. -/
def visitItems {σ : Type} (root : Text) (action : σ → SourceFile → Visit σ) :
    List WalkItem → σ → Visit σ
  | [], state => ⟨state, [], .ok ()⟩
  | .directory _ :: rest, state => visitItems root action rest state
  | .dangling path :: rest, state =>
    (visitItems root action rest state).afterLog [.danglingLink path]
  | .broken cause :: _, state => ⟨state, [], .error (.brokenTree root cause)⟩
  | .file file :: rest, state =>
    if CompilationUnit.isFileName file.name then
      let visit := action state file
      match visit.result with
      | .ok _ => (visitItems root action rest visit.state).afterLog visit.log
      | .error _ => visit
    else visitItems root action rest state

namespace FileSystem

variable {σ : Type}

/-- Hands the compilation units below a root to an action, in the order of the walk. -/
def visit (fs : FileSystem) (sorted : Bool) (root : Text) (action : σ → SourceFile → Visit σ)
    (state : σ) : Visit σ :=
  match fs.checkRoot root with
  | .error fault => ⟨state, [], .error fault⟩
  | .ok stop => visitItems root action (fs.walk sorted stop) state

/-- The compilation units below a root, in the order of the walk. -/
def findUnits (fs : FileSystem) (sorted : Bool) (root : Text) : Traced (List SourceFile) := do
  let files ← (fs.visit sorted root (fun files file => ⟨files ++ [file], [], .ok ()⟩) []).traced
  Traced.logEvent (.filesFound root files.length)
  return files

end FileSystem

end ImportCensus

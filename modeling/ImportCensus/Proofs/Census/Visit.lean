import ImportCensus.Census.Analysis
import ImportCensus.Proofs.Traced

/-!
# `ImportCensus.Proofs.Census.Visit`: visits as folds over the units of a walk

A visit works on the items of a walk one by one, and stops at the first item that breaks the walk or
at the first unit at which its action fails. The theorems say what it ends with by two separate
functions of the items:

* `unitsOf`: the compilation units among the items, in order.
* `WalkItem.fault?`: the fault at an item, if the walk breaks there or the action fails there.

`result_visitItems` puts them together: the first fault, and else the fold of the action over the
units. The induction needs nothing of the action but that its fault at a file does not depend on the
state, which holds for every action of a census. `result_findUnits` is the case of an action that
never fails.
-/

set_option autoImplicit false

namespace ImportCensus

/-! ### What an item of a walk stands for -/

namespace WalkItem

/-- The compilation unit that an item is, if it is one. -/
def unit? : WalkItem → Option SourceFile
  | .file found => if CompilationUnit.isFileName found.name then some found else none
  | _ => none

/-- The fault of a walk below `root` that breaks at the item. -/
def break? (root : Text) : WalkItem → Option Fault
  | .broken cause => some (.brokenTree root cause)
  | _ => none

/-- The fault at an item, where `atFile?` is the fault of the action at a file. -/
def fault? (root : Text) (atFile? : SourceFile → Option Fault) (item : WalkItem) : Option Fault :=
  (item.break? root).or (item.unit?.bind atFile?)

end WalkItem

/-- The compilation units among the items of a walk, in order. -/
def unitsOf (items : List WalkItem) : List SourceFile := items.filterMap WalkItem.unit?

/-- A walk has a fault exactly when it breaks at an item or the action fails at one of its units. So
a visit that succeeds can be split: the units can be found, and each of them can be worked on. -/
theorem findSome?_fault?_eq_none_iff {root : Text} {atFile? : SourceFile → Option Fault}
    {items : List WalkItem} :
    items.findSome? (WalkItem.fault? root atFile?) = none ↔
      items.findSome? (WalkItem.break? root) = none ∧ (unitsOf items).findSome? atFile? = none := by
  simp only [List.findSome?_eq_none_iff, unitsOf, WalkItem.fault?, Option.or_eq_none_iff,
    List.mem_filterMap, Option.bind_eq_none_iff]
  constructor
  · intro h
    exact ⟨fun item hitem => (h item hitem).1,
      fun file ⟨item, hitem, hfile⟩ => (h item hitem).2 file hfile⟩
  · rintro ⟨hbreak, hfile⟩ item hitem
    exact ⟨hbreak item hitem, fun file h => hfile file ⟨item, hitem, h⟩⟩

/-- An action that never fails leaves only the breaks of the walk. The search for units is such an
action, since it only puts each unit behind the others. -/
theorem findSome?_fault?_of_no_fault {root : Text} (items : List WalkItem) :
    items.findSome? (WalkItem.fault? root fun _ => none) =
      items.findSome? (WalkItem.break? root) := by
  congr 1
  funext item
  simp [WalkItem.fault?]

/-! ### A visit is a fold -/

namespace Visit

variable {σ : Type}

/-- What was logged before a visit does not change its result. -/
@[simp] theorem traced_afterLog_result (events : List Event) (visit : Visit σ) :
    (visit.afterLog events).traced.result = visit.traced.result := rfl

/-- An action that carries out a computation has the result of that computation. Only the state that
it leaves behind when it fails is added, and a result does not show it. -/
@[simp] theorem traced_ofTraced_result (state : σ) (computation : Traced σ) :
    (Visit.ofTraced state computation).traced.result = computation.result := by
  unfold Visit.ofTraced Visit.traced
  cases computation.result <;> rfl

/-- A visit with a state as its result has come to its end in that state. The two parts of a visit
are kept apart in the model, since a visit that fails leaves a state behind as well. -/
theorem result_ok_of_traced {visit : Visit σ} {state : σ} (h : visit.traced.result = .ok state) :
    visit.result = .ok () ∧ visit.state = state := by
  unfold Visit.traced at h
  cases hr : visit.result with
  | error fault => rw [hr] at h; cases h
  | ok _ => rw [hr] at h; cases h; exact ⟨rfl, rfl⟩

/-- A visit with a fault as its result has ended with that fault, whatever state it has left
behind. -/
theorem result_error_of_traced {visit : Visit σ} {fault : Fault}
    (h : visit.traced.result = .error fault) : visit.result = .error fault := by
  unfold Visit.traced at h
  cases hr : visit.result with
  | error other => rw [hr] at h; cases h; rfl
  | ok _ => rw [hr] at h; cases h

end Visit

variable {σ : Type} {action : σ → SourceFile → Visit σ} {atFile? : SourceFile → Option Fault}
  {step : σ → SourceFile → σ}

/-- One file of a visit. A unit at which the action fails ends the visit. Any other file hands the
state on, changed only if the file is a unit. This is the one case of the induction below in which
the action plays a part. -/
theorem result_visitItems_file
    (h : ∀ state file, (action state file).traced.result = settle (atFile? file) (step state file))
    (root : Text) (file : SourceFile) (rest : List WalkItem) (state : σ) :
    (visitItems root action (.file file :: rest) state).traced.result =
      match WalkItem.fault? root atFile? (.file file) with
      | some fault => .error fault
      | none =>
        (visitItems root action rest
          ((WalkItem.unit? (.file file)).elim state (step state))).traced.result := by
  by_cases hname : CompilationUnit.isFileName file.name = true
  · have hstep := h state file
    cases hfault : atFile? file with
    | some fault =>
      -- The rest of the visit is what the action has left behind.
      rw [hfault, settle_some] at hstep
      have hend := Visit.result_error_of_traced hstep
      simp [visitItems, WalkItem.fault?, WalkItem.break?, WalkItem.unit?, hname, hfault, hend,
        hstep]
    | none =>
      rw [hfault, settle_none] at hstep
      obtain ⟨hend, hstate⟩ := Visit.result_ok_of_traced hstep
      simp [visitItems, WalkItem.fault?, WalkItem.break?, WalkItem.unit?, hname, hfault, hend,
        hstate]
  · -- No unit: the action is not called at all.
    simp [visitItems, WalkItem.fault?, WalkItem.break?, WalkItem.unit?, hname]

/-- What a visit of some items ends with: the first fault among them, and if there is none the fold
of the action over the units. The hypothesis says that whether the action fails at a file is a
matter of the file alone. So the faults can be looked for without the states in between. -/
theorem result_visitItems
    (h : ∀ state file, (action state file).traced.result = settle (atFile? file) (step state file))
    (root : Text) (items : List WalkItem) (state : σ) :
    (visitItems root action items state).traced.result =
      settle (items.findSome? (WalkItem.fault? root atFile?))
        ((unitsOf items).foldl step state) := by
  induction items generalizing state with
  | nil => rfl
  | cons item rest ih =>
    rw [List.findSome?_cons]
    cases item with
    | directory path => exact ih state
    | dangling path => exact ih state
    | broken cause => rfl
    | file file =>
      rw [result_visitItems_file h, unitsOf, List.filterMap_cons]
      -- Whether this file ends the visit, or the visit goes on with the state that it leaves.
      cases hfault : WalkItem.fault? root atFile? (.file file) with
      | some fault => rfl
      | none =>
        show (visitItems root action rest _).traced.result = _
        rw [ih]
        cases WalkItem.unit? (.file file) <;> rfl

namespace FileSystem

/-- What a visit below a root ends with. A root that is no directory is a fault of its own, and
nothing is walked through then. Otherwise the visit is that of all items of the walk. -/
theorem result_visit (fs : FileSystem) (sorted : Bool) (root : Text)
    (action : σ → SourceFile → Visit σ) (atFile? : SourceFile → Option Fault)
    (step : σ → SourceFile → σ)
    (h : ∀ state file, (action state file).traced.result = settle (atFile? file) (step state file))
    (state : σ) :
    (fs.visit sorted root action state).traced.result =
      (fs.checkRoot root).bind fun stop =>
        settle ((fs.walk sorted stop).findSome? (WalkItem.fault? root atFile?))
          ((unitsOf (fs.walk sorted stop)).foldl step state) := by
  unfold FileSystem.visit
  cases fs.checkRoot root with
  | error fault => rfl
  | ok stop => exact result_visitItems h root _ state

/-- The units that are found below a root, unless the walk breaks. The search is a visit whose
action collects the units, and a fold that puts each unit behind the others gives them back in
order. -/
theorem result_findUnits (fs : FileSystem) (sorted : Bool) (root : Text) :
    (fs.findUnits sorted root).result =
      (fs.checkRoot root).bind fun stop =>
        settle ((fs.walk sorted stop).findSome? (WalkItem.break? root))
          (unitsOf (fs.walk sorted stop)) := by
  have hvisit := fs.result_visit sorted root
    (fun (files : List SourceFile) file => ⟨files ++ [file], [], .ok ()⟩) (fun _ => none)
    (fun files file => files ++ [file]) (fun _ _ => rfl) []
  have happend (files : List SourceFile) :
      files.foldl (fun files file => files ++ [file]) [] = files := by
    rw [List.foldl_append_eq_append, List.nil_append, ← List.flatMap_def]
    exact List.flatMap_singleton' files
  simp only [findSome?_fault?_of_no_fault, happend] at hvisit
  rw [← hvisit]
  -- The search is a visit whose action never fails.
  unfold FileSystem.findUnits
  rw [Traced.result_bind]
  cases (fs.visit sorted root _ _).traced.result <;> rfl

end FileSystem

end ImportCensus

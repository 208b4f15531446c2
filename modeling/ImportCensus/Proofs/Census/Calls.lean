import ImportCensus.Proofs.Census.Units

/-!
# `ImportCensus.Proofs.Census.Calls`: the calls that a visit makes

The action of a visit keeps a state and may fail at any call. `recorded` is the action that also
keeps a list of its calls, so a visit with it says what it has called and in which order. Recording
changes nothing else.

`EndsAs` has one rule for each way in which a visit can end: at the end of the items, at an item
that breaks the walk, or at a unit at which the action fails. Each rule says which calls were made,
in which state they have left the action, and what the visit gives back.

* `ending_append_of_passes`: items at which nothing stops the visit, in front of others.
* `endsAs_iff`: a visit ends by one of the rules, in one way.
* `visit_calls`: the calls and the end of every visit.
-/

set_option autoImplicit false

namespace ImportCensus

variable {σ : Type}

/-! ### Recorded calls -/

namespace Visit

/-- What a visit leaves behind, but for the log. -/
def ending (visit : Visit σ) : σ × Except Fault Unit := (visit.state, visit.result)

/-- What was logged before a visit is no part of how it ends. -/
@[simp] theorem ending_afterLog (events : List Event) (visit : Visit σ) :
    (visit.afterLog events).ending = visit.ending := rfl

/-- The visit together with the calls that it has made. -/
def withCalls (visit : Visit σ) (calls : List SourceFile) : Visit (σ × List SourceFile) :=
  ⟨(visit.state, calls), visit.log, visit.result⟩

end Visit

/-- The action that keeps its calls beside its state, the last one at the end. -/
def recorded (action : σ → SourceFile → Visit σ) :
    σ × List SourceFile → SourceFile → Visit (σ × List SourceFile) :=
  fun (state, calls) file => (action state file).withCalls (calls ++ [file])

/-- To record the calls changes nothing else: a recorded visit is the visit itself with some calls
beside its state. The induction is on the items, for any state and any calls that were made
before. -/
theorem exists_visitItems_recorded (root : Text) (action : σ → SourceFile → Visit σ)
    (items : List WalkItem) (state : σ) (before : List SourceFile) :
    ∃ calls, visitItems root (recorded action) items (state, before) =
      (visitItems root action items state).withCalls calls := by
  induction items generalizing state before with
  | nil => exact ⟨before, rfl⟩
  | cons item rest ih =>
    cases item with
    | directory path => exact ih state before
    | broken cause => exact ⟨before, rfl⟩
    | dangling path =>
      obtain ⟨calls, h⟩ := ih state before
      exact ⟨calls, by rw [visitItems, visitItems, h]; rfl⟩
    | file file =>
      rw [visitItems, visitItems]
      split
      · -- The call is added to those before. Behind a fault there are no further ones.
        obtain ⟨calls, h⟩ := ih (action state file).state (before ++ [file])
        cases hcall : (action state file).result with
        | error fault => exact ⟨before ++ [file], by simp [recorded, Visit.withCalls, hcall]⟩
        | ok _ => exact ⟨calls, by simp [recorded, Visit.withCalls, hcall] at h ⊢; rw [h]; rfl⟩
      · exact ih state before

/-! ### How a visit ends -/

/-- The action succeeds at some files, one after the other, and leads from one state to another. -/
inductive Succeeds (action : σ → SourceFile → Visit σ) : σ → List SourceFile → σ → Prop
  | nil {state : σ} : Succeeds action state [] state
  | cons {state last : σ} {file : SourceFile} {files : List SourceFile} :
      (action state file).result = .ok () → Succeeds action (action state file).state files last →
      Succeeds action state (file :: files) last

/-- Nothing stops a visit at some items: none of them breaks the walk, and the action succeeds at
their units. -/
structure Passes (action : σ → SourceFile → Visit σ) (state : σ) (items : List WalkItem)
    (last : σ) : Prop where
  unbroken : ∀ cause, .broken cause ∉ items
  succeeds : Succeeds action state (unitsOf items) last

/-- `EndsAs root action state items calls last result`: how a visit of some items ends, by the calls
that it has made, the state in which they have left the action, and the result. -/
inductive EndsAs (root : Text) (action : σ → SourceFile → Visit σ) (state : σ)
    (items : List WalkItem) : List SourceFile → σ → Except Fault Unit → Prop
  /-- All units are called. -/
  | complete {last : σ} :
      Passes action state items last → EndsAs root action state items (unitsOf items) last (.ok ())
  /-- The walk breaks, and only the units in front of the break are called. -/
  | broken {front back : List WalkItem} {cause : WalkFault} {last : σ} :
      items = front ++ .broken cause :: back → Passes action state front last →
      EndsAs root action state items (unitsOf front) last (.error (.brokenTree root cause))
  /-- The action fails at a unit, which is the last one that is called. -/
  | refused {front back : List WalkItem} {file : SourceFile} {next : σ} {fault : Fault} :
      items = front ++ .file file :: back → Passes action state front next →
      CompilationUnit.isFileName file.name = true → (action next file).result = .error fault →
      EndsAs root action state items (unitsOf front ++ [file]) (action next file).state
        (.error fault)

variable {root : Text} {action : σ → SourceFile → Visit σ} {state last : σ}
  {items : List WalkItem}

/-- A visit comes to the items behind those at which nothing stops it, in the state in which these
have left the action, and with their units called. The induction is on the items in front. A unit
takes one success from `Succeeds`, and any other item takes none. -/
theorem ending_append_of_passes (h : Passes action state items last) (rest : List WalkItem)
    (before : List SourceFile) :
    (visitItems root (recorded action) (items ++ rest) (state, before)).ending =
      (visitItems root (recorded action) rest (last, before ++ unitsOf items)).ending := by
  obtain ⟨hunbroken, hsucceeds⟩ := h
  induction items generalizing state before with
  | nil =>
    cases hsucceeds
    rw [unitsOf, List.filterMap_nil, List.append_nil, List.nil_append]
  | cons item items ih =>
    -- What holds of all items holds of the first one and of the others.
    obtain ⟨hitem, hitems⟩ : (∀ cause, item ≠ .broken cause) ∧ ∀ cause, .broken cause ∉ items :=
      ⟨fun cause heq => hunbroken cause (heq ▸ List.mem_cons_self), fun cause hmem =>
        hunbroken cause (List.mem_cons_of_mem item hmem)⟩
    rw [List.cons_append]
    cases item with
    | directory path => exact ih before hitems hsucceeds
    | dangling path => exact ih before hitems hsucceeds
    | broken cause => exact absurd rfl (hitem cause)
    | file file =>
      rw [visitItems]
      by_cases hname : CompilationUnit.isFileName file.name = true
      · -- A unit, at which the action is called and succeeds.
        have hunits : unitsOf (.file file :: items) = file :: unitsOf items := by
          simp [unitsOf, WalkItem.unit?, hname]
        rw [hunits] at hsucceeds ⊢
        cases hsucceeds with
        | cons hcall hrest =>
          rw [if_pos hname, List.append_cons, ← ih _ hitems hrest]
          simp [recorded, Visit.withCalls, hcall]
      · -- Not a unit, so nothing is called.
        have hunits : unitsOf (.file file :: items) = unitsOf items := by
          simp [unitsOf, WalkItem.unit?, hname]
        rw [hunits] at hsucceeds ⊢
        rw [if_neg hname]
        exact ih before hitems hsucceeds

/-- The rules say what a visit does. What stands in front of the item that stops the visit is
passed, and at that item the program is followed for one step. -/
theorem EndsAs.ending_eq {calls : List SourceFile} {result : Except Fault Unit}
    (h : EndsAs root action state items calls last result) :
    (visitItems root (recorded action) items (state, [])).ending = ((last, calls), result) := by
  -- Each rule names the items in front of the end, and these pass.
  cases h with
  | complete hpasses =>
    have hend := @ending_append_of_passes _ root _ _ _ _ hpasses [] []
    rwa [List.append_nil] at hend
  | broken hitems hpasses =>
    rw [hitems, ending_append_of_passes hpasses]
    rfl
  | refused hitems hpasses hname hcall =>
    rw [hitems, ending_append_of_passes hpasses, visitItems, if_pos hname]
    simp [recorded, Visit.withCalls, Visit.ending, hcall]

/-- The units of two sequences of items, one after the other, are those of the first and then those
of the second. -/
theorem unitsOf_append (front back : List WalkItem) :
    unitsOf (front ++ back) = unitsOf front ++ unitsOf back :=
  List.filterMap_append

/-- Successes can be put one after the other, if the second begins in the state in which the first
ends. -/
theorem Succeeds.append {files files' : List SourceFile} {next : σ}
    (h : Succeeds action state files next) (h' : Succeeds action next files' last) :
    Succeeds action state (files ++ files') last := by
  induction h with
  | nil => exact h'
  | cons hcall _ ih => exact .cons hcall (ih h')

/-- Nothing stops a visit at two sequences of items if nothing does at either of them. -/
theorem Passes.append {front : List WalkItem} {next : σ} (h : Passes action state front next)
    (h' : Passes action next items last) : Passes action state (front ++ items) last where
  unbroken cause hmem :=
    (List.mem_append.1 hmem).elim (h.unbroken cause) (h'.unbroken cause)
  succeeds := by
    rw [unitsOf_append]
    exact h.succeeds.append h'.succeeds

/-- What stands in front of a visit and does not stop it adds its calls. Each rule stays the same
rule, with more items in front of the one at which the visit stops. -/
theorem EndsAs.append {front : List WalkItem} {next : σ} {calls : List SourceFile}
    {result : Except Fault Unit} (hfront : Passes action state front next)
    (h : EndsAs root action next items calls last result) :
    EndsAs root action state (front ++ items) (unitsOf front ++ calls) last result := by
  cases h with
  | complete hpasses =>
    rw [← unitsOf_append]
    exact .complete (hfront.append hpasses)
  | broken hitems hpasses =>
    rw [hitems, ← unitsOf_append, ← List.append_assoc]
    exact .broken rfl (hfront.append hpasses)
  | refused hitems hpasses hname hcall =>
    rw [hitems, ← List.append_assoc, ← List.append_assoc, ← unitsOf_append]
    exact .refused rfl (hfront.append hpasses) hname hcall

/-- An item without a unit does not stop a visit, unless the walk breaks there. Directories, links
without a target and files that are no units are such items. -/
theorem passes_singleton {item : WalkItem} (hitem : ∀ cause, item ≠ .broken cause)
    (hunit : item.unit? = none) : Passes action state [item] state where
  unbroken cause hmem := hitem cause (List.mem_singleton.1 hmem).symm
  succeeds := by
    rw [unitsOf, List.filterMap_cons_none hunit]
    exact .nil

/-- Every visit ends by one of the rules. The first item stops it, or is passed, and then the rest
of the visit ends by one of them. The state is general in the induction, since a unit changes it. -/
theorem exists_endsAs (root : Text) (action : σ → SourceFile → Visit σ) (state : σ)
    (items : List WalkItem) :
    ∃ calls last result, EndsAs root action state items calls last result := by
  induction items generalizing state with
  | nil => exact ⟨_, _, _, .complete ⟨by simp, .nil⟩⟩
  | cons item items ih =>
    -- The visit ends at this item, or passes it and ends as that of the others does.
    have hstart : Passes action state [] state := ⟨by simp, .nil⟩
    have hpassed {next : σ} (hitem : Passes action state [item] next) :
        ∃ calls last result, EndsAs root action state (item :: items) calls last result := by
      obtain ⟨calls, last, result, h⟩ := ih next
      exact ⟨_, last, result, h.append hitem⟩
    cases item with
    | directory path => exact hpassed (passes_singleton (by simp) rfl)
    | dangling path => exact hpassed (passes_singleton (by simp) rfl)
    | broken cause => exact ⟨_, _, _, .broken (List.nil_append _).symm hstart⟩
    | file file =>
      by_cases hname : CompilationUnit.isFileName file.name = true
      · cases hcall : (action state file).result with
        | error fault =>
          exact ⟨_, _, _, .refused (List.nil_append _).symm hstart hname hcall⟩
        | ok _ =>
          have hunits : unitsOf [.file file] = [file] := by simp [unitsOf, WalkItem.unit?, hname]
          have hcalled :
              Succeeds action state (unitsOf [.file file]) (action state file).state := by
            rw [hunits]
            exact .cons hcall .nil
          exact hpassed ⟨by simp, hcalled⟩
      · exact hpassed (passes_singleton (by simp) (if_neg hname))

/-- **A visit ends by one of the rules, and in one way.** From right to left the rule that there is
must be the given one, since both say how the same visit ends. -/
theorem endsAs_iff {calls : List SourceFile} {result : Except Fault Unit} :
    EndsAs root action state items calls last result ↔
      (visitItems root (recorded action) items (state, [])).ending = ((last, calls), result) := by
  refine ⟨EndsAs.ending_eq, fun hend => ?_⟩
  obtain ⟨calls', last', result', h⟩ := exists_endsAs root action state items
  cases hend.symm.trans h.ending_eq
  exact h

/-! ### All visits -/

namespace FileSystem

/-- The units are found if no item breaks the walk, and then all of them are, in the order of the
walk. -/
theorem result_findUnits_eq_ok_iff {fs : FileSystem} {sorted : Bool} {root : Text}
    {files : List SourceFile} :
    (fs.findUnits sorted root).result = .ok files ↔
      ∃ stop, fs.checkRoot root = .ok stop ∧ (∀ cause, .broken cause ∉ fs.walk sorted stop) ∧
        files = unitsOf (fs.walk sorted stop) := by
  rw [result_findUnits]
  cases fs.checkRoot root with
  | error fault => simp [Except.bind]
  | ok stop =>
    show settle _ _ = _ ↔ _
    rw [settle_eq_ok_iff, findSome?_break?_eq_none_iff]
    simp

/-- **A visit calls its action on the units in front of what stops it.** For every action, and every
state in which it starts:

1. a root that is refused is the result, and nothing is called;
2. below any other root the visit ends by one of the rules of `EndsAs`, for the items of the walk;
3. that holds for every sequence of items, whatever walk has met them;
4. to record the calls changes nothing else;
5. a search for units gives all units of a walk that does not break, and fails if it breaks. -/
theorem visit_calls (action : σ → SourceFile → Visit σ) (state : σ) :
    (∀ fs sorted root fault, checkRoot fs root = .error fault →
      (fs.visit sorted root (recorded action) (state, [])).ending =
        ((state, []), .error fault)) ∧
    (∀ fs sorted root stop, checkRoot fs root = .ok stop → ∀ calls last result,
      EndsAs root action state (fs.walk sorted stop) calls last result ↔
        (fs.visit sorted root (recorded action) (state, [])).ending = ((last, calls), result)) ∧
    (∀ root items calls last result, EndsAs root action state items calls last result ↔
      (visitItems root (recorded action) items (state, [])).ending = ((last, calls), result)) ∧
    (∀ fs sorted root, ∃ calls, visit fs sorted root (recorded action) (state, []) =
      (fs.visit sorted root action state).withCalls calls) ∧
    ∀ fs sorted root files, (findUnits fs sorted root).result = .ok files ↔
      ∃ stop, fs.checkRoot root = .ok stop ∧ (∀ cause, .broken cause ∉ fs.walk sorted stop) ∧
        files = unitsOf (fs.walk sorted stop) := by
  refine ⟨fun fs sorted root fault hroot => ?_, fun fs sorted root stop hroot calls last result =>
    ?_, fun root items calls last result => endsAs_iff, fun fs sorted root => ?_,
    fun fs sorted root files => result_findUnits_eq_ok_iff⟩
  · rw [visit, hroot]
    rfl
  · rw [visit, hroot]
    exact endsAs_iff
  · rw [visit, visit]
    cases fs.checkRoot root with
    | error fault => exact ⟨[], rfl⟩
    | ok stop => exact exists_visitItems_recorded root action _ state []

end FileSystem

end ImportCensus

import ImportCensus.Settings.Basic
import Mathlib.Data.List.Nodup
import Mathlib.Tactic.Tauto

/-!
# `ImportCensus.Proofs.Settings.Assignments`: what assignments make of the defaults

The assignments of a settings file are carried out one after the other. `Settings.ofAssignments`
says at once what comes of it: each key has the value that is assigned to its name, and its default
if none is.

* `assign_ofAssignments_eq_some_iff`: one more assignment, to a key that has none yet.
* `Settings.ofAssignments?_eq_some_iff`: assignments are accepted exactly if their names are those
  of keys, no name occurs twice and the values fit, and they make `Settings.ofAssignments`.
-/

set_option autoImplicit false

namespace ImportCensus

/-! ### Keys -/

namespace SettingKey

/-- Tests for a value that fits a key: a path, one of the formats, or a truth value. -/
def accepts (key : SettingKey) (value : SettingValue) : Bool :=
  match key with
  | sourceRoot | targetRoot | output => value.path?.isSome
  | format => (value.word?.bind ReportFormat.ofKeyword?).isSome
  | openReport | sortEntries | parallel => value.truth?.isSome

/-- No two keys have the same name, so a name tells which setting is meant. -/
theorem name_injective {key other : SettingKey} (h : key.name = other.name) : key = other := by
  cases key <;> cases other <;> first | rfl | exact absurd h (by decide)

/-- The look-up of a name finds the key that has it. -/
theorem ofName?_eq_some_iff {name : Text} {key : SettingKey} :
    ofName? name = some key ↔ key.name = name := by
  constructor
  · intro h
    simpa using List.find?_some h
  · rintro rfl
    cases key <;> decide

end SettingKey

/-! ### Values of keys -/

/-- The value that is assigned to a key. If several are, it is the first of them; a settings file
with two is refused. -/
def assigned? (assignments : List (Text × SettingValue)) (key : SettingKey) :
    Option SettingValue :=
  assignments.lookup key.name

/-- Tests for assignments that a settings file may consist of: each gives a value that fits to
another key. -/
@[mk_iff]
structure AreAssignable (assignments : List (Text × SettingValue)) : Prop where
  nodup : (assignments.map Prod.fst).Nodup
  all : ∀ assignment ∈ assignments, ∃ key : SettingKey,
    key.name = assignment.1 ∧ key.accepts assignment.2 = true

/-- The path that is assigned to a key, if one is. -/
def assignedPath? (assignments : List (Text × SettingValue)) (key : SettingKey) : Option Text :=
  ((assigned? assignments key).bind SettingValue.path?).join

/-- The format that is assigned, if one is. -/
def assignedFormat? (assignments : List (Text × SettingValue)) : Option ReportFormat :=
  ((assigned? assignments .format).bind SettingValue.word?).bind ReportFormat.ofKeyword?

/-- The truth value that is assigned to a key, if one is. -/
def assignedTruth? (assignments : List (Text × SettingValue)) (key : SettingKey) : Option Bool :=
  (assigned? assignments key).bind SettingValue.truth?

/-- The settings that assignments make of the defaults. -/
def Settings.ofAssignments (assignments : List (Text × SettingValue)) : Settings where
  sourceRoot := assignedPath? assignments .sourceRoot
  targetRoot := assignedPath? assignments .targetRoot
  output := assignedPath? assignments .output
  format := (assignedFormat? assignments).getD .csv
  openReport := (assignedTruth? assignments .openReport).getD true
  sortEntries := (assignedTruth? assignments .sortEntries).getD false
  parallel := (assignedTruth? assignments .parallel).getD true

variable {assignments : List (Text × SettingValue)} {key : SettingKey} {value : SettingValue}

/-- A key has no value if none of the assignments bears its name. -/
theorem assigned?_eq_none (h : key.name ∉ assignments.map Prod.fst) :
    assigned? assignments key = none := by
  refine List.lookup_eq_none_iff.2 fun assignment hmem => ?_
  exact bne_iff_ne.2 fun heq => h (heq ▸ List.mem_map_of_mem hmem)

/-- One more assignment gives a value to its own key, unless that has one, and to no other key. -/
theorem assigned?_append_singleton (other : SettingKey) :
    assigned? (assignments ++ [(key.name, value)]) other =
      (assigned? assignments other).or (if other = key then some value else none) := by
  rw [assigned?, List.lookup_append]
  split
  · next heq => simp [assigned?, heq]
  · next hne =>
    have hname : (other.name == key.name) = false :=
      beq_false_of_ne fun h => hne (SettingKey.name_injective h)
    simp [assigned?, List.lookup_cons, hname]

/-- One more assignment may be added if its name is new and its value fits. This is what is checked
for each assignment of a file. -/
theorem areAssignable_append_singleton :
    AreAssignable (assignments ++ [(key.name, value)]) ↔
      AreAssignable assignments ∧ key.name ∉ assignments.map Prod.fst ∧
        key.accepts value = true := by
  have hfits : (∃ other : SettingKey, other.name = key.name ∧ other.accepts value = true) ↔
      key.accepts value = true := by
    refine ⟨?_, fun h => ⟨key, rfl, h⟩⟩
    rintro ⟨other, hname, h⟩
    exact SettingKey.name_injective hname ▸ h
  rw [areAssignable_iff, areAssignable_iff, List.map_append, List.forall_mem_append,
    List.nodup_append_comm]
  simp only [List.map_cons, List.map_nil, List.singleton_append, List.nodup_cons,
    List.forall_mem_singleton, hfits]
  tauto

/-- The first of several assignments are acceptable if all are. So a file is refused at its first
assignment that is not. -/
theorem AreAssignable.of_append {rest : List (Text × SettingValue)}
    (h : AreAssignable (assignments ++ rest)) : AreAssignable assignments := by
  have hnodup := h.nodup
  rw [List.map_append] at hnodup
  exact ⟨hnodup.of_append_left, fun assignment hmem =>
    h.all assignment (List.mem_append_left rest hmem)⟩

namespace Settings

/-- A key that has no value yet gets one if that fits. The settings are then those of all
assignments so far, which is the step for `assignAll_eq_some_iff`. -/
theorem assign_ofAssignments_eq_some_iff {next : Settings}
    (hnew : key.name ∉ assignments.map Prod.fst) :
    (ofAssignments assignments).assign key value = some next ↔
      key.accepts value = true ∧ ofAssignments (assignments ++ [(key.name, value)]) = next := by
  have hnone := assigned?_eq_none hnew
  have hadded (other : SettingKey) : assigned? (assignments ++ [(key.name, value)]) other = _ :=
    assigned?_append_singleton other
  -- Three kinds of keys: those for paths, the format, and those for truth values.
  cases key with
  | sourceRoot | targetRoot | output =>
    cases hpath : value.path? <;>
      simp [assign, SettingKey.accepts, ofAssignments, assignedPath?, assignedFormat?,
        assignedTruth?, hadded, hnone, hpath]
  | format =>
    cases hformat : value.word?.bind ReportFormat.ofKeyword? <;>
      simp [assign, SettingKey.accepts, ofAssignments, assignedPath?, assignedFormat?,
        assignedTruth?, hadded, hnone, hformat]
  | openReport | sortEntries | parallel =>
    cases htruth : value.truth? <;>
      simp [assign, SettingKey.accepts, ofAssignments, assignedPath?, assignedFormat?,
        assignedTruth?, hadded, hnone, htruth]

/-- Assignments that follow others. The keys of these are taken, and the settings so far are what
they make of the defaults; both hold again after each further assignment. -/
theorem assignAll_eq_some_iff {rest : List (Text × SettingValue)} {taken : List SettingKey}
    {settings : Settings} (h : AreAssignable assignments)
    (htaken : ∀ key : SettingKey, key ∈ taken ↔ key.name ∈ assignments.map Prod.fst) :
    (ofAssignments assignments).assignAll taken rest = some settings ↔
      AreAssignable (assignments ++ rest) ∧ ofAssignments (assignments ++ rest) = settings := by
  induction rest generalizing assignments taken with
  | nil =>
    rw [List.append_nil, assignAll]
    simp [h]
  | cons assignment rest ih =>
    obtain ⟨name, value⟩ := assignment
    rw [assignAll, List.append_cons]
    cases hname : SettingKey.ofName? name with
    | none =>
      -- The name of no key.
      refine iff_of_false nofun fun hall => ?_
      obtain ⟨key, hkey, -⟩ := hall.1.of_append.all (name, value) (by simp)
      cases hname.symm.trans (SettingKey.ofName?_eq_some_iff.2 hkey)
    | some key =>
      obtain rfl := SettingKey.ofName?_eq_some_iff.1 hname
      dsimp only
      split
      · next hmem =>
        -- A key for the second time.
        refine iff_of_false nofun fun hall => ?_
        exact (areAssignable_append_singleton.1 hall.1.of_append).2.1 ((htaken key).1 hmem)
      · next hmem =>
        have hnew := mt (htaken key).2 hmem
        have htakenNext (other : SettingKey) : other ∈ key :: taken ↔
            other.name ∈ (assignments ++ [(key.name, value)]).map Prod.fst := by
          have hsame : other = key ↔ other.name = key.name :=
            ⟨fun heq => heq ▸ rfl, SettingKey.name_injective⟩
          simp only [List.mem_cons, htaken, List.map_append, List.mem_append, List.map_cons,
            List.map_nil, hsame, List.not_mem_nil]
          tauto
        rw [Option.bind_eq_some_iff]
        constructor
        · rintro ⟨next, hassign, hrest⟩
          obtain ⟨haccepts, rfl⟩ := (assign_ofAssignments_eq_some_iff hnew).1 hassign
          exact (ih (areAssignable_append_singleton.2 ⟨h, hnew, haccepts⟩) htakenNext).1 hrest
        · rintro ⟨hall, hsettings⟩
          have hfront := hall.of_append
          obtain ⟨-, -, haccepts⟩ := areAssignable_append_singleton.1 hfront
          exact ⟨_, (assign_ofAssignments_eq_some_iff hnew).2 ⟨haccepts, rfl⟩,
            (ih hfront htakenNext).2 ⟨hall, hsettings⟩⟩

/-- **What a settings file says.** Its assignments are accepted exactly if each is to another key
and gives a value that fits. Then every key has the value that is assigned to it, or its
default. -/
theorem ofAssignments?_eq_some_iff {settings : Settings} :
    ofAssignments? assignments = some settings ↔
      AreAssignable assignments ∧ ofAssignments assignments = settings :=
  have hempty : AreAssignable [] := ⟨List.nodup_nil, nofun⟩
  assignAll_eq_some_iff hempty (by simp)

end Settings

end ImportCensus

import Mathlib.Algebra.BigOperators.Group.List.Lemmas
import Mathlib.Algebra.GroupWithZero.Nat
import Mathlib.Data.Finset.Card
import ImportCensus.Usage

/-!
# `ImportCensus.Proofs.Usage`: a usage map is its history, grouped

A `UsageMap` keeps its entries and, beside them, the place of each dependency. The history of a map
is the list of usages that were recorded in it. The theorems tie the three together:

* `grouped history` is what the entries have to be: each dependency once, in the order of its first
  usage, with all its consumers in the order of theirs.
* `UsageMap.Gathers` is the invariant: the entries are the grouped history, and a dependency has a
  place exactly when the entry there is its own. `gathers_record` says that recording keeps it, and
  `gathers_recordAll` that every history leads to it.
* `grouped_usagesOf`: to group the usages of entries that are grouped already changes nothing.
* `run_gathers`: all maps that come about by recording single usages and by collecting entries.
-/

set_option autoImplicit false

namespace ImportCensus

/-! ### Grouping -/

/-- The consumers of a dependency among some usages, in order. -/
def consumersIn (history : List Usage) (dependency : Text) : List Text :=
  (history.filter (·.dependency = dependency)).map Usage.consumer

/-- The dependencies of some usages, each one once, in the order of their first usage. -/
def dependenciesIn (history : List Usage) : List Text :=
  (history.map Usage.dependency).eraseDups

/-- Some usages grouped by their dependencies. -/
def grouped (history : List Usage) : List UsageEntry :=
  (dependenciesIn history).map fun dependency => ⟨dependency, consumersIn history dependency⟩

/-- The dependencies are those of the usages. Only their order and that none is repeated is added,
so membership can be shown at the history itself. -/
theorem mem_dependenciesIn {history : List Usage} {dependency : Text} :
    dependency ∈ dependenciesIn history ↔ dependency ∈ history.map Usage.dependency :=
  List.mem_eraseDups

/-- One more element is kept unless it was there before. A history grows at its end, so this is the
step by which everything about dependencies is shown. -/
theorem eraseDups_concat {α : Type} [BEq α] [LawfulBEq α] (xs : List α) (x : α) :
    (xs ++ [x]).eraseDups = if xs.contains x then xs.eraseDups else xs.eraseDups ++ [x] := by
  rw [List.eraseDups_append]
  by_cases h : x ∈ xs
  · simp [List.removeAll, h]
  · simp [List.removeAll, h, List.eraseDups_cons]

/-- What is left of a list without its repetitions has none. The induction is from the end of the
list, where `eraseDups_concat` says what one more element does. -/
theorem nodup_eraseDups {α : Type} [BEq α] [LawfulBEq α] (xs : List α) : xs.eraseDups.Nodup := by
  induction xs using List.reverseRecOn with
  | nil => simp
  | append_singleton xs x ih =>
    rw [eraseDups_concat]
    split
    · exact ih
    · next hnew =>
      rw [List.nodup_append]
      refine ⟨ih, by simp, fun a ha b hb => ?_⟩
      rintro rfl
      rw [List.mem_singleton.1 hb] at ha
      exact hnew (by simpa using ha)

/-- Each dependency is listed once. This is why places and entries determine one another. -/
theorem nodup_dependenciesIn (history : List Usage) : (dependenciesIn history).Nodup :=
  nodup_eraseDups _

/-- A usage of a dependency that has some already adds no dependency, one of another adds it at the
end. So the place of a dependency never changes once it has one. -/
theorem dependenciesIn_concat (history : List Usage) (usage : Usage) :
    dependenciesIn (history ++ [usage]) =
      if usage.dependency ∈ dependenciesIn history then dependenciesIn history
      else dependenciesIn history ++ [usage.dependency] := by
  unfold dependenciesIn
  rw [List.map_append, List.map_singleton, eraseDups_concat]
  simp

/-- The consumers in two histories, one after the other, are those of the first and then those of
the second. -/
theorem consumersIn_append (first second : List Usage) (dependency : Text) :
    consumersIn (first ++ second) dependency =
      consumersIn first dependency ++ consumersIn second dependency := by
  unfold consumersIn
  rw [List.filter_append, List.map_append]

/-- Only the consumers of its own dependency change with one more usage, and they get one more at
the end. -/
theorem consumersIn_concat (history : List Usage) (usage : Usage) (dependency : Text) :
    consumersIn (history ++ [usage]) dependency =
      consumersIn history dependency ++
        if usage.dependency = dependency then [usage.consumer] else [] := by
  rw [consumersIn_append]
  by_cases h : usage.dependency = dependency <;> simp [consumersIn, h]

/-- A dependency has consumers exactly when it is used. So the entries of a grouped history are
never empty, and a dependency that is not listed has none. -/
theorem consumersIn_eq_nil_iff {history : List Usage} {dependency : Text} :
    consumersIn history dependency = [] ↔ dependency ∉ dependenciesIn history := by
  rw [mem_dependenciesIn]
  simp [consumersIn, List.filter_eq_nil_iff]

/-- The keys of a grouped history are its dependencies, in the order of their first usage. -/
@[simp] theorem map_dependency_grouped (history : List Usage) :
    (grouped history).map UsageEntry.dependency = dependenciesIn history := by
  simp [grouped, Function.comp_def]

/-- The entry at a place, by the dependency at that place. Both lists are of the same length, so
this also says that one of them ends where the other one does. -/
theorem getElem?_grouped (history : List Usage) (place : Nat) :
    (grouped history)[place]? = (dependenciesIn history)[place]?.map fun dependency =>
      ⟨dependency, consumersIn history dependency⟩ := by
  rw [grouped, List.getElem?_map]

/-- Grouping with one more usage of a dependency that has some: its entry gets one more consumer.
The lists are compared place by place, and since the keys are distinct only one place changes. -/
theorem grouped_concat_of_mem {history : List Usage} {usage : Usage} {place : Nat}
    (h : (dependenciesIn history)[place]? = some usage.dependency) :
    grouped (history ++ [usage]) =
      (grouped history).modify place (·.addConsumer usage.consumer) := by
  have hkeys : dependenciesIn (history ++ [usage]) = dependenciesIn history := by
    rw [dependenciesIn_concat, if_pos (List.mem_of_getElem? h)]
  apply List.ext_getElem?
  intro i
  rw [List.getElem?_modify, getElem?_grouped, getElem?_grouped, hkeys]
  cases hi : (dependenciesIn history)[i]? with
  | none => rfl
  | some dependency =>
    rw [Option.map_some, Option.map_some, consumersIn_concat]
    -- The keys are distinct, so the place of the usage's dependency is the only one with it.
    by_cases hplace : place = i
    · have hsame : usage.dependency = dependency := by
        rw [hplace, hi] at h
        exact (Option.some.inj h).symm
      simp [hplace, hsame, UsageEntry.addConsumer]
    · have hother : usage.dependency ≠ dependency := by
        rintro rfl
        obtain ⟨hlt, -⟩ := List.getElem?_eq_some_iff.1 h
        exact hplace ((List.getElem?_inj hlt (nodup_dependenciesIn history)).1 (h.trans hi.symm))
      simp [hplace, hother]

/-- Grouping with the first usage of a dependency: a new entry at the end. The other entries stay as
they are, since none of them is of that dependency. -/
theorem grouped_concat_of_not_mem {history : List Usage} {usage : Usage}
    (h : usage.dependency ∉ dependenciesIn history) :
    grouped (history ++ [usage]) = grouped history ++ [⟨usage.dependency, [usage.consumer]⟩] := by
  have hnone : consumersIn history usage.dependency = [] := consumersIn_eq_nil_iff.2 h
  unfold grouped
  rw [dependenciesIn_concat, if_neg h, List.map_append, List.map_singleton]
  congr 1
  · -- The other dependencies keep their consumers.
    apply List.map_congr_left
    intro dependency hdependency
    have hother : usage.dependency ≠ dependency := by
      rintro rfl
      exact h hdependency
    rw [consumersIn_concat, if_neg hother, List.append_nil]
  · rw [consumersIn_concat, if_pos rfl, hnone, List.nil_append]

/-! ### Entries that are grouped already -/

/-- The usages of entries begin with those of the first one, a usage for each of its consumers. -/
theorem usagesOf_cons (entry : UsageEntry) (entries : List UsageEntry) :
    UsageMap.usagesOf (entry :: entries) =
      entry.consumers.map (Usage.mk entry.dependency) ++ UsageMap.usagesOf entries :=
  List.flatMap_cons

/-- The consumers among the usages of one entry: all of them for its own dependency, and none for
any other. -/
theorem consumersIn_map_mk (dependency other : Text) (consumers : List Text) :
    consumersIn (consumers.map (Usage.mk dependency)) other =
      if dependency = other then consumers else [] := by
  by_cases h : dependency = other <;>
    simp [consumersIn, List.filter_map, Function.comp_def, h]

/-- The one dependency of the usages of one entry. An entry without consumers has no usages, and
then there is no dependency either. -/
theorem dependenciesIn_map_mk (dependency : Text) {consumers : List Text} (h : consumers ≠ []) :
    dependenciesIn (consumers.map (Usage.mk dependency)) = [dependency] := by
  cases consumers with
  | nil => exact absurd rfl h
  | cons consumer consumers =>
    unfold dependenciesIn
    rw [List.map_cons, List.map_cons, List.eraseDups_cons]
    simp [Function.comp_def]

/-- The usages of entries use no other dependencies than those of the entries. -/
theorem mem_dependencies_of_mem_usagesOf {entries : List UsageEntry} {dependency : Text}
    (h : dependency ∈ (UsageMap.usagesOf entries).map Usage.dependency) :
    dependency ∈ entries.map UsageEntry.dependency := by
  simp only [UsageMap.usagesOf, List.mem_map, List.mem_flatMap] at h ⊢
  obtain ⟨usage, ⟨entry, hentry, consumer, -, rfl⟩, rfl⟩ := h
  exact ⟨entry, hentry, rfl⟩

section

variable {entries : List UsageEntry} (hkeys : (entries.map UsageEntry.dependency).Nodup)

include hkeys in
/-- Each entry keeps its consumers when the usages of all entries are listed. The keys are distinct,
so no other entry adds to them. -/
theorem consumersIn_usagesOf : ∀ entry ∈ entries,
    consumersIn (UsageMap.usagesOf entries) entry.dependency = entry.consumers := by
  induction entries with
  | nil => simp
  | cons first rest ih =>
    rw [List.map_cons, List.nodup_cons] at hkeys
    -- No later entry has the dependency of the first one.
    have hfresh : consumersIn (UsageMap.usagesOf rest) first.dependency = [] := by
      rw [consumersIn_eq_nil_iff, mem_dependenciesIn]
      exact fun h => hkeys.1 (mem_dependencies_of_mem_usagesOf h)
    intro entry hentry
    rw [usagesOf_cons, consumersIn_append, consumersIn_map_mk]
    rcases List.mem_cons.1 hentry with rfl | hentry
    · rw [if_pos rfl, hfresh, List.append_nil]
    · have hother : first.dependency ≠ entry.dependency := fun h =>
        hkeys.1 (h ▸ List.mem_map_of_mem hentry)
      rw [if_neg hother, List.nil_append, ih hkeys.2 entry hentry]

include hkeys in
/-- The order of the entries is kept, if none of them is without consumers. The first usage of a
dependency comes from its entry, and no later entry has the same key. -/
theorem dependenciesIn_usagesOf (hfull : ∀ entry ∈ entries, entry.consumers ≠ []) :
    dependenciesIn (UsageMap.usagesOf entries) = entries.map UsageEntry.dependency := by
  induction entries with
  | nil => rfl
  | cons first rest ih =>
    rw [List.map_cons, List.nodup_cons] at hkeys
    obtain ⟨hfirst, hrest⟩ := List.forall_mem_cons.1 hfull
    -- The dependencies of later entries are new, so none of them is dropped.
    have hfresh : ((UsageMap.usagesOf rest).map Usage.dependency).removeAll
        ((first.consumers.map (Usage.mk first.dependency)).map Usage.dependency) =
          (UsageMap.usagesOf rest).map Usage.dependency := by
      refine List.filter_eq_self.2 fun dependency hdependency => ?_
      have hother : first.dependency ≠ dependency := fun h =>
        hkeys.1 (h ▸ mem_dependencies_of_mem_usagesOf hdependency)
      simp [hother]
    have htail := ih hkeys.2 hrest
    have hhead := dependenciesIn_map_mk first.dependency hfirst
    unfold dependenciesIn at hhead htail ⊢
    rw [usagesOf_cons, List.map_append, List.eraseDups_append, hhead, hfresh, htail,
      List.map_cons, List.singleton_append]

include hkeys in
/-- To group the usages of entries that are grouped already changes nothing. So a map that is
collected from the entries of another one has the same entries. -/
theorem grouped_usagesOf (hfull : ∀ entry ∈ entries, entry.consumers ≠ []) :
    grouped (UsageMap.usagesOf entries) = entries := by
  rw [grouped, dependenciesIn_usagesOf hkeys hfull, List.map_map]
  conv_rhs => rw [← List.map_id entries]
  apply List.map_congr_left
  intro entry hentry
  show UsageEntry.mk entry.dependency _ = entry
  rw [consumersIn_usagesOf hkeys entry hentry]

end

/-! ### The invariant -/

/-- The places of a list with one more element are the old ones, and one behind them. -/
theorem getElem?_concat_eq_some_iff {α : Type} {xs : List α} {x y : α} {place : Nat} :
    (xs ++ [x])[place]? = some y ↔ xs[place]? = some y ∨ place = xs.length ∧ y = x := by
  rcases Nat.lt_trichotomy place xs.length with h | h | h
  · simp [List.getElem?_append_left h, Nat.ne_of_lt h]
  · simp [h, eq_comm]
  · have hend : (xs ++ [x]).length ≤ place := by
      rw [List.length_append, List.length_singleton]
      exact h
    simp [List.getElem?_eq_none hend, List.getElem?_eq_none (Nat.le_of_lt h), Nat.ne_of_gt h]

namespace UsageMap

/-- A map gathers a history: its entries are the grouped history, and the place of a dependency is
where its entry stands. -/
structure Gathers (map : UsageMap) (history : List Usage) : Prop where
  entries_eq : map.entries = grouped history
  places_iff : ∀ (dependency : Text) (place : Nat), map.places[dependency]? = some place ↔
    (dependenciesIn history)[place]? = some dependency

/-- The empty map gathers the empty history: there are no entries and no places. -/
theorem gathers_empty : Gathers empty [] where
  entries_eq := rfl
  places_iff dependency place := by simp [empty, dependenciesIn]

/-- Recording keeps the invariant, whether the dependency is known or new. The two branches of the
program are the two ways in which grouping goes on, and the place that the map looks up is the one
at which `grouped_concat_of_mem` changes the entry. -/
theorem gathers_record {map : UsageMap} {history : List Usage} (h : Gathers map history)
    (usage : Usage) : Gathers (map.record usage) (history ++ [usage]) := by
  unfold record
  cases hplace : map.places[usage.dependency]? with
  | some place =>
    -- The places stay as they are, and so do the dependencies of the history.
    have hold := (h.places_iff _ _).1 hplace
    refine ⟨?_, fun dependency other => ?_⟩
    · show map.entries.modify place _ = _
      rw [h.entries_eq, grouped_concat_of_mem hold]
    · show map.places[dependency]? = some other ↔ _
      rw [h.places_iff, dependenciesIn_concat, if_pos (List.mem_of_getElem? hold)]
  | none =>
    -- A dependency without a place stands nowhere in the entries.
    have hnew : usage.dependency ∉ dependenciesIn history := by
      intro hmem
      obtain ⟨place, hat⟩ := List.mem_iff_getElem?.1 hmem
      rw [(h.places_iff _ _).2 hat] at hplace
      cases hplace
    have hlength : map.entries.length = (dependenciesIn history).length := by
      rw [h.entries_eq, grouped, List.length_map]
    refine ⟨?_, fun dependency other => ?_⟩
    · show map.entries ++ _ = _
      rw [h.entries_eq, grouped_concat_of_not_mem hnew]
    · show (map.places.insert usage.dependency map.entries.length)[dependency]? = some other ↔ _
      rw [Std.HashMap.getElem?_insert, dependenciesIn_concat, if_neg hnew, hlength,
        getElem?_concat_eq_some_iff]
      by_cases hsame : usage.dependency = dependency
      · subst hsame
        have habsent : (dependenciesIn history)[other]? ≠ some usage.dependency :=
          fun hat => hnew (List.mem_of_getElem? hat)
        simp [habsent, eq_comm]
      · simp [hsame, Ne.symm hsame, h.places_iff]

/-- Every history leads to a map that gathers it. The induction is from the end of the history,
since that is where recording adds. -/
theorem gathers_recordAll (history : List Usage) : Gathers (empty.recordAll history) history := by
  induction history using List.reverseRecOn with
  | nil => exact gathers_empty
  | append_singleton history usage ih =>
    have hstep : empty.recordAll (history ++ [usage]) = (empty.recordAll history).record usage := by
      unfold recordAll
      rw [List.foldl_append]
      rfl
    rw [hstep]
    exact gathers_record ih usage

/-! ### What a map says -/

section

variable {map : UsageMap} {history : List Usage} (h : Gathers map history)

include h in
/-- No two entries are of the same dependency. -/
theorem Gathers.nodup_keys : (map.entries.map UsageEntry.dependency).Nodup := by
  rw [h.entries_eq, map_dependency_grouped]
  exact nodup_dependenciesIn history

include h in
/-- Only dependencies that are used have entries, so each of them has a consumer. -/
theorem Gathers.consumers_ne_nil : ∀ entry ∈ map.entries, entry.consumers ≠ [] := by
  rw [h.entries_eq]
  intro entry hentry
  obtain ⟨dependency, hdependency, rfl⟩ := List.mem_map.1 hentry
  intro hnil
  exact consumersIn_eq_nil_iff.1 hnil hdependency

include h in
/-- The place of a dependency is where its entry stands. Places and entries were tied to the history
one by one, and this leaves the history out. -/
theorem Gathers.places_eq_some_iff (dependency : Text) (place : Nat) :
    map.places[dependency]? = some place ↔
      ∃ entry, map.entries[place]? = some entry ∧ entry.dependency = dependency := by
  rw [h.places_iff, h.entries_eq, ← map_dependency_grouped, List.getElem?_map,
    Option.map_eq_some_iff]

include h in
/-- Looking a dependency up gives its consumers in the history, in order, and a dependency that was
never recorded has none. The way goes over the place of the dependency and the entry there. -/
theorem Gathers.consumers?_eq_some_iff (dependency : Text) (consumers : List Text) :
    map.consumers? dependency = some consumers ↔
      dependency ∈ history.map Usage.dependency ∧ consumers = consumersIn history dependency := by
  rw [← mem_dependenciesIn, List.mem_iff_getElem?]
  unfold consumers?
  simp only [Option.bind_eq_some_iff, Option.map_eq_some_iff, h.places_iff, h.entries_eq,
    getElem?_grouped]
  constructor
  · rintro ⟨place, hplace, entry, ⟨other, hother, rfl⟩, rfl⟩
    obtain rfl : dependency = other := Option.some.inj (hplace.symm.trans hother)
    exact ⟨⟨place, hplace⟩, rfl⟩
  · rintro ⟨⟨place, hplace⟩, rfl⟩
    exact ⟨place, hplace, _, ⟨dependency, hplace, rfl⟩, rfl⟩

include h in
/-- A map has as many entries as different dependencies were recorded. -/
theorem Gathers.size_eq : map.size = (history.map Usage.dependency).toFinset.card := by
  have hsame : (history.map Usage.dependency).toFinset = (dependenciesIn history).toFinset := by
    ext dependency
    rw [List.mem_toFinset, List.mem_toFinset, mem_dependenciesIn]
  rw [hsame, List.toFinset_card_of_nodup (nodup_dependenciesIn history), size, h.entries_eq,
    grouped, List.length_map]

/-- A dependency has as many consumers as there are usages of it. -/
theorem length_consumersIn (history : List Usage) (dependency : Text) :
    (consumersIn history dependency).length = (history.map Usage.dependency).count dependency := by
  rw [consumersIn, List.length_map, ← List.countP_eq_length_filter, List.count, List.countP_map]
  congr 1
  funext usage
  exact (beq_eq_decide usage.dependency dependency).symm

/-- The number of usages is the sum of the numbers of consumers. The program adds up with a fold,
and the library knows more about sums. -/
theorem usageCount_eq_sum (map : UsageMap) :
    map.usageCount = (map.entries.map (·.consumers.length)).sum := by
  rw [List.sum_eq_foldr, List.foldr_map]
  rfl

include h in
/-- As many usages are counted as were recorded. Each dependency counts as often as it occurs in the
history, and these numbers add up to its length. -/
theorem Gathers.usageCount_eq : map.usageCount = history.length := by
  have hperm : (dependenciesIn history).Perm (history.map Usage.dependency).dedup :=
    (List.perm_ext_iff_of_nodup (nodup_dependenciesIn history) (List.nodup_dedup _)).2
      fun dependency => mem_dependenciesIn.trans List.mem_dedup.symm
  calc map.usageCount
      = ((dependenciesIn history).map fun dependency =>
          (history.map Usage.dependency).count dependency).sum := by
        rw [usageCount_eq_sum, h.entries_eq, grouped, List.map_map]
        congr 1
        exact List.map_congr_left fun dependency _ => length_consumersIn history dependency
    _ = ((history.map Usage.dependency).dedup.map fun dependency =>
          (history.map Usage.dependency).count dependency).sum := (hperm.map _).sum_eq
    _ = history.length := by
        -- The library counts by decidable equality, which is the same test.
        have hcount := List.sum_map_count_dedup_eq_length (history.map Usage.dependency)
        rw [lawful_beq_subsingleton instBEqOfDecidableEq List.instBEq] at hcount
        rw [hcount, List.length_map]

include h in
/-- Maps that agree on their entries agree on the places as well, since these follow from the
entries. -/
theorem Gathers.beq_iff {other : UsageMap} {otherHistory : List Usage}
    (hother : Gathers other otherHistory) :
    (map == other) = true ↔ map.entries = other.entries := by
  show (map.entries == other.entries && map.places == other.places) = true ↔ _
  rw [Bool.and_eq_true, beq_iff_eq]
  refine ⟨fun heq => heq.1, fun heq => ⟨heq, ?_⟩⟩
  refine Std.HashMap.beq_iff_equiv.2 (Std.HashMap.Equiv.of_forall_getElem?_eq fun dependency => ?_)
  ext place
  rw [h.places_eq_some_iff, hother.places_eq_some_iff, heq]

include h in
/-- Collecting the entries of a map gives the map back. -/
theorem Gathers.ofEntries_entries : (ofEntries map.entries == map) = true := by
  have hback := gathers_recordAll (usagesOf map.entries)
  rw [ofEntries, hback.beq_iff h, hback.entries_eq,
    grouped_usagesOf h.nodup_keys h.consumers_ne_nil]

end

/-- Entries without consumers leave no trace: they have no usages, so nothing of them is recorded
when a map is collected. -/
theorem ofEntries_filter (entries : List UsageEntry) :
    ofEntries (entries.filter (!·.consumers.isEmpty)) = ofEntries entries := by
  unfold ofEntries
  congr 1
  induction entries with
  | nil => rfl
  | cons entry entries ih =>
    rw [usagesOf_cons, ← ih]
    by_cases hempty : entry.consumers = []
    · -- The entry is dropped, and it would not have added a usage.
      rw [List.filter_cons_of_neg (by simp [hempty]), hempty]
      rfl
    · rw [List.filter_cons_of_pos (by simpa using hempty), usagesOf_cons]

/-! ### All maps that come about -/

/-- What is done with a map: one more usage is recorded, or a new map is collected from entries. -/
inductive Step
  | record (usage : Usage)
  | collect (entries : List UsageEntry)

/-- The map after a step. -/
def Step.apply (map : UsageMap) : Step → UsageMap
  | record usage => map.record usage
  | collect entries => ofEntries entries

/-- The usages that were recorded in the map, after a step. -/
def Step.extend (history : List Usage) : Step → List Usage
  | record usage => history ++ [usage]
  | collect entries => usagesOf entries

/-- The map that some steps lead to from the empty one. -/
def run (steps : List Step) : UsageMap := steps.foldl Step.apply empty

/-- The usages that were recorded in that map. -/
def recorded (steps : List Step) : List Usage := steps.foldl Step.extend []

/-- One step keeps the invariant. Recording goes on with the history, and collecting begins a new
one, that of the entries that are collected. -/
theorem gathers_step {map : UsageMap} {history : List Usage} (h : Gathers map history)
    (step : Step) : Gathers (step.apply map) (step.extend history) := by
  cases step with
  | record usage => exact gathers_record h usage
  | collect entries => exact gathers_recordAll (usagesOf entries)

/-- Any number of steps keep it, so it holds of every map that comes about. -/
theorem gathers_run (steps : List Step) : Gathers (run steps) (recorded steps) := by
  induction steps using List.reverseRecOn with
  | nil => exact gathers_empty
  | append_singleton steps step ih =>
    unfold run recorded at ih ⊢
    rw [List.foldl_append, List.foldl_append]
    exact gathers_step ih step

/-- **A usage map is a multimap in the order of insertion.** After all steps:

1. the dependencies of the entries are distinct, each entry has a consumer, and a dependency has a
   place exactly when the entry at that place is its own, so no place is out of range;
2. the entries are the recorded usages, grouped by their dependencies;
3. looking a dependency up gives its consumers exactly when it was recorded, and the two numbers
   count distinct dependencies and recorded usages;
4. two such maps are equal, places included, exactly when their entries are;
5. collecting the entries of a map gives an equal map, and entries without consumers do not
   count. -/
theorem run_gathers (steps : List Step) :
    (((run steps).entries.map UsageEntry.dependency).Nodup ∧
      (∀ entry ∈ (run steps).entries, entry.consumers ≠ []) ∧
      (∀ (dependency : Text) (place : Nat), (run steps).places[dependency]? = some place ↔
        ∃ entry, (run steps).entries[place]? = some entry ∧ entry.dependency = dependency) ∧
      ∀ (dependency : Text) (place : Nat), (run steps).places[dependency]? = some place →
        place < (run steps).entries.length) ∧
    (run steps).entries = grouped (recorded steps) ∧
    ((∀ dependency consumers, (run steps).consumers? dependency = some consumers ↔
        dependency ∈ (recorded steps).map Usage.dependency ∧
          consumers = consumersIn (recorded steps) dependency) ∧
      (run steps).size = ((recorded steps).map Usage.dependency).toFinset.card ∧
      (run steps).usageCount = (recorded steps).length) ∧
    (∀ others, (run steps == run others) = true ↔ (run steps).entries = (run others).entries) ∧
    (ofEntries (run steps).entries == run steps) = true ∧
      ∀ entries, ofEntries (entries.filter (!·.consumers.isEmpty)) = ofEntries entries := by
  have h := gathers_run steps
  refine ⟨⟨h.nodup_keys, h.consumers_ne_nil, h.places_eq_some_iff,
      fun dependency place hplace => ?_⟩,
    h.entries_eq, ⟨h.consumers?_eq_some_iff, h.size_eq, h.usageCount_eq⟩,
    fun others => h.beq_iff (gathers_run others), h.ofEntries_entries, ofEntries_filter⟩
  obtain ⟨entry, hentry, -⟩ := (h.places_eq_some_iff dependency place).1 hplace
  exact (List.getElem?_eq_some_iff.1 hentry).1

end UsageMap

end ImportCensus

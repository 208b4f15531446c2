import ImportCensus.Proofs.Usage.Histories
import ImportCensus.Report.Row
import ImportCensus.Report.Stats

/-!
# `ImportCensus.Proofs.Report.Stats`: the numbers of a map

The numbers of a map and its most used classes, by the history that the map gathers.

* `map_snd_mostUsed`: how often the most used classes are used. This does not depend on the order in
  which classes with as many usages stand, so it is the same for histories of the same usages.
* `sum_mostUsed`: a list of all used classes accounts for all usages.
* `stats_eq_of_perm`: the numbers for two histories of the same usages.
-/

set_option autoImplicit false

namespace ImportCensus

/-- Histories of the same usages use their dependencies equally often. Only the order of the
dependencies may differ, since it is the order of discovery. -/
theorem counts_grouped_perm {first second : List Usage} (h : first.Perm second) :
    ((grouped first).map (·.consumers.length)).Perm
      ((grouped second).map (·.consumers.length)) := by
  unfold grouped
  rw [List.map_map, List.map_map]
  have hcount : (fun dependency => (consumersIn first dependency).length) =
      fun dependency => (consumersIn second dependency).length :=
    funext fun dependency => (consumersIn_perm h dependency).length_eq
  show ((dependenciesIn first).map fun dependency => (consumersIn first dependency).length).Perm _
  rw [hcount]
  exact (dependenciesIn_perm h).map _

/-- Numbers can be put into decreasing order in one way only: numbers that are equal cannot be told
apart, so it does not matter how the sort arranges them. -/
theorem mergeSort_eq_of_perm {first second : List Nat} (h : first.Perm second) :
    (first.mergeSort fun a b => b ≤ a) = second.mergeSort fun a b => b ≤ a := by
  have hsorted (counts : List Nat) :
      (counts.mergeSort fun a b => b ≤ a).Pairwise fun a b => b ≤ a := by
    have hpairwise : (counts.mergeSort fun a b => b ≤ a).Pairwise fun a b => decide (b ≤ a) :=
      List.pairwise_mergeSort (fun a b c hab hbc => by simp only [decide_eq_true_eq] at *; omega)
        (fun a b => by simp only [Bool.or_eq_true, decide_eq_true_eq]; omega) counts
    exact hpairwise.imp of_decide_eq_true
  refine List.Perm.eq_of_pairwise (fun a b _ _ hab hba => Nat.le_antisymm hba hab) (hsorted first)
    (hsorted second) ?_
  exact (List.mergeSort_perm _ _).trans (h.trans (List.mergeSort_perm _ _).symm)

namespace UsageMap

/-- The usages of a map are as many as it counts, adding up the consumers of its entries. -/
theorem length_usages (map : UsageMap) : map.usages.length = map.usageCount := by
  rw [usages, usagesOf, List.length_flatMap, usageCount_eq_sum]
  simp only [List.length_map]

/-- A report has a row for each usage below the row of titles. -/
theorem length_rows (map : UsageMap) (sourceLabel targetLabel : Text) :
    (map.rows sourceLabel targetLabel).length = map.usageCount + 1 := by
  rw [rows, List.length_cons, List.length_map, length_usages]

/-- How often the most used classes are used. Sorting the classes by these numbers and sorting the
numbers alone gives the same numbers, whichever class of a tie comes first. -/
theorem map_snd_mostUsed (map : UsageMap) (limit : Nat) :
    (map.mostUsed limit).map Prod.snd =
      ((map.entries.map (·.consumers.length)).mergeSort fun a b => b ≤ a).take limit := by
  have hsort := List.map_mergeSort (r := fun (a b : Text × Nat) => decide (b.2 ≤ a.2))
    (s := fun a b => decide (b ≤ a)) (f := Prod.snd)
    (l := map.entries.map fun entry => (entry.dependency, entry.consumers.length))
    fun _ _ _ _ => rfl
  rw [List.map_map] at hsort
  unfold mostUsed
  rw [List.map_take, hsort]
  rfl

/-- A list of all used classes accounts for all usages: nothing is cut off, and sorting does not
change a sum. -/
theorem sum_mostUsed {map : UsageMap} {limit : Nat} (h : map.size ≤ limit) :
    ((map.mostUsed limit).map Prod.snd).sum = map.usageCount := by
  have hperm := List.mergeSort_perm (map.entries.map (·.consumers.length)) fun a b => b ≤ a
  have hall : ((map.entries.map (·.consumers.length)).mergeSort
      fun a b => b ≤ a).length ≤ limit := by
    rwa [hperm.length_eq, List.length_map]
  rw [map_snd_mostUsed, List.take_of_length_le hall, hperm.sum_eq, usageCount_eq_sum]

section

variable {map other : UsageMap} {history otherHistory : List Usage} (h : Gathers map history)
  (hother : Gathers other otherHistory) (hperm : history.Perm otherHistory)

include h hother hperm

/-- For histories of the same usages the most used classes have the same numbers of usages. The
classes themselves may differ, where a tie is broken by the order of discovery. -/
theorem map_snd_mostUsed_eq_of_perm (limit : Nat) :
    (map.mostUsed limit).map Prod.snd = (other.mostUsed limit).map Prod.snd := by
  rw [map_snd_mostUsed, map_snd_mostUsed, h.entries_eq, hother.entries_eq,
    mergeSort_eq_of_perm (counts_grouped_perm hperm)]

/-- The statistics are the same for histories of the same usages, since they count classes and
usages and say nothing about an order. -/
theorem stats_eq_of_perm (classes : ClassSet) :
    UsageStats.compute classes map = UsageStats.compute classes other := by
  unfold UsageStats.compute
  rw [h.size_eq, hother.size_eq, h.usageCount_eq, hother.usageCount_eq, hperm.length_eq,
    List.toFinset_eq_of_perm _ _ (hperm.map Usage.dependency)]

end

end UsageMap

end ImportCensus

import Mathlib.Data.List.Perm.Basic
import ImportCensus.Proofs.Usage

/-!
# `ImportCensus.Proofs.Usage.Histories`: maps of histories that have something in common

A map is determined by its history. Two histories lead to maps that can be compared:

* `grouped_filter`: the usages of some dependencies only. Their entries are those of the whole
  history, in the same order and with the same consumers.
* `Gathers.rearranged`: the same usages in another order. The maps are `Rearranged`: they have the
  same dependencies, each with the same consumers, in other orders.
* `Gathers.usages_perm`: a map holds the usages that were recorded, so its rows are theirs.
-/

set_option autoImplicit false

namespace ImportCensus

/-! ### Some dependencies only -/

/-- What is kept of a list has its first occurrences in the order in which the list has them.
Whether an element is kept depends on the element, so all its occurrences are kept or none is. -/
theorem eraseDups_filter {α : Type} [BEq α] [LawfulBEq α] (p : α → Bool) (xs : List α) :
    (xs.filter p).eraseDups = xs.eraseDups.filter p := by
  induction xs using List.reverseRecOn with
  | nil => rfl
  | append_singleton xs x ih =>
    rw [List.filter_append, eraseDups_concat]
    -- The new member is kept by both or dropped by both, and if kept it may have occurred before.
    by_cases hp : p x = true
    · rw [List.filter_cons_of_pos hp, List.filter_nil, eraseDups_concat, ih]
      by_cases hmem : x ∈ xs
      · rw [if_pos (by simp [hmem, hp]), if_pos (by simpa using hmem)]
      · rw [if_neg (by simp [hmem]), if_neg (by simpa using hmem), List.filter_append,
          List.filter_cons_of_pos hp, List.filter_nil]
    · rw [List.filter_cons_of_neg hp, List.filter_nil, List.append_nil, ih]
      split
      · rfl
      · rw [List.filter_append, List.filter_cons_of_neg hp, List.filter_nil, List.append_nil]

section

variable (keep : Text → Bool) (history : List Usage)

/-- The usages of some dependencies use these dependencies, in the order of the whole history. -/
theorem dependenciesIn_filter :
    dependenciesIn (history.filter (keep ·.dependency)) = (dependenciesIn history).filter keep := by
  unfold dependenciesIn
  rw [← eraseDups_filter, List.filter_map]
  rfl

/-- A dependency that is kept has all its consumers, since all its usages are kept with it. -/
theorem consumersIn_filter {dependency : Text} (hkeep : keep dependency = true) :
    consumersIn (history.filter (keep ·.dependency)) dependency =
      consumersIn history dependency := by
  unfold consumersIn
  rw [List.filter_filter]
  congr 1
  refine List.filter_congr fun usage _ => ?_
  by_cases hsame : usage.dependency = dependency
  · simp [hsame, hkeep]
  · simp [hsame]

/-- **Grouping the usages of some dependencies gives their entries.** So it does not matter whether
dependencies are left out before usages are recorded or after. -/
theorem grouped_filter :
    grouped (history.filter (keep ·.dependency)) =
      (grouped history).filter (keep ·.dependency) := by
  unfold grouped
  rw [dependenciesIn_filter, List.filter_map]
  refine List.map_congr_left fun dependency hdependency => ?_
  rw [consumersIn_filter keep history (List.mem_filter.1 hdependency).2]

end

/-! ### The same usages in another order -/

section

variable {first second : List Usage}

/-- The same usages in another order use the same dependencies. In which order depends on which
usage came first, but none is listed twice in either history. -/
theorem dependenciesIn_perm (h : first.Perm second) :
    (dependenciesIn first).Perm (dependenciesIn second) :=
  (List.perm_ext_iff_of_nodup (nodup_dependenciesIn first) (nodup_dependenciesIn second)).2
    fun dependency => by
      rw [mem_dependenciesIn, mem_dependenciesIn]
      exact (h.map Usage.dependency).mem_iff

/-- Each dependency has the same consumers in both histories, up to their order. -/
theorem consumersIn_perm (h : first.Perm second) (dependency : Text) :
    (consumersIn first dependency).Perm (consumersIn second dependency) :=
  (h.filter _).map Usage.consumer

/-- A usage occurs as often as its consumer does among those of its dependency. This is how usages
are counted in a map, where they are stored dependency by dependency. -/
theorem count_consumersIn (history : List Usage) (usage : Usage) :
    (consumersIn history usage.dependency).count usage.consumer = history.count usage := by
  unfold consumersIn
  rw [List.count, List.countP_map, List.countP_filter, List.count]
  refine List.countP_congr fun other _ => ?_
  cases other
  cases usage
  simp [and_comm]

/-- Histories with the same consumers of each dependency consist of the same usages. They are
compared by how often each usage occurs in them. -/
theorem perm_of_consumersIn_perm
    (h : ∀ dependency, (consumersIn first dependency).Perm (consumersIn second dependency)) :
    first.Perm second :=
  List.perm_iff_count.2 fun usage => by
    rw [← count_consumersIn, ← count_consumersIn]
    exact (h usage.dependency).count_eq usage.consumer

end

namespace UsageMap

/-- A map with the same dependencies as another, each with the same consumers, in whichever order
either of them was discovered. -/
structure Rearranged (map other : UsageMap) : Prop where
  dependencies : (map.entries.map UsageEntry.dependency).Perm
    (other.entries.map UsageEntry.dependency)
  consumers : ∀ entry ∈ map.entries, ∃ counterpart ∈ other.entries,
    counterpart.dependency = entry.dependency ∧ entry.consumers.Perm counterpart.consumers

section

variable {map other : UsageMap} {history otherHistory : List Usage} (h : Gathers map history)

include h in
/-- The usages in a map are those that were recorded, dependency by dependency. So nothing is lost
or counted twice by grouping, and only the order has changed. -/
theorem Gathers.usages_perm : map.usages.Perm history := by
  -- The same usages are counted dependency by dependency.
  refine perm_of_consumersIn_perm fun dependency => ?_
  have hentries := h.entries_eq
  by_cases hmem : dependency ∈ dependenciesIn history
  · have hentry : ⟨dependency, consumersIn history dependency⟩ ∈ map.entries := by
      rw [hentries]
      exact List.mem_map_of_mem hmem
    exact .of_eq (consumersIn_usagesOf h.nodup_keys _ hentry)
  · -- A dependency without usages has none in the entries either.
    have hnone : dependency ∉ dependenciesIn map.usages := by
      rw [usages, dependenciesIn_usagesOf h.nodup_keys h.consumers_ne_nil, hentries,
        map_dependency_grouped]
      exact hmem
    rw [consumersIn_eq_nil_iff.2 hmem, consumersIn_eq_nil_iff.2 hnone]

include h in
/-- **Histories of the same usages lead to the same map, up to the order.** This is what is left of
a map when the order in which files are listed is not known. -/
theorem Gathers.rearranged (hother : Gathers other otherHistory)
    (hperm : history.Perm otherHistory) : Rearranged map other where
  dependencies := by
    rw [h.entries_eq, hother.entries_eq, map_dependency_grouped, map_dependency_grouped]
    exact dependenciesIn_perm hperm
  consumers := by
    rw [h.entries_eq, hother.entries_eq]
    intro entry hentry
    obtain ⟨dependency, hdependency, rfl⟩ := List.mem_map.1 hentry
    exact ⟨_, List.mem_map_of_mem ((dependenciesIn_perm hperm).mem_iff.1 hdependency), rfl,
      consumersIn_perm hperm dependency⟩

end

end UsageMap

end ImportCensus

import ImportCensus.Proofs.Arrangement
import ImportCensus.Proofs.Usage
import ImportCensus.Report.Stats

/-!
# `ImportCensus.Proofs.Report.Ranking`: the most used classes

`UsageMap.mostUsed` sorts the classes by their numbers of usages, keeps the order of discovery
where these are equal, and cuts the list off. `IsMostUsed` says what the outcome has to be without
sorting: which classes are listed, in which order, and that none of the others should have been.

* `pairwise_isAhead_ranking`: all classes in the order of the sort. Of two of them the one with more
  usages is ahead, and of those with as many the one that was discovered first.
* `isMostUsed_take`, `IsMostUsed.eq_take`: the front of this list is most used, and nothing else is.
* `mostUsed_determined`: for all maps that come about by recording and collecting.
-/

set_option autoImplicit false

namespace ImportCensus

/-! ### What a list of the most used classes is -/

section

variable (history : List Usage)

/-- The number of usages of a dependency. -/
def useCount (dependency : Text) : Nat := (consumersIn history dependency).length

/-- The place of a dependency in the order of discovery. -/
def discoveryPlace (dependency : Text) : Nat := (dependenciesIn history).idxOf dependency

/-- At most `limit` classes with the numbers of their usages, as they are to be listed. The
conditions speak of the history alone: nothing is said about sorting, or about the map. -/
structure IsMostUsed (limit : Nat) (top : List (Text × Nat)) : Prop where
  length_eq : top.length = min limit (dependenciesIn history).length
  counts : ∀ item ∈ top, item.1 ∈ dependenciesIn history ∧ item.2 = useCount history item.1
  nodup : (top.map Prod.fst).Nodup
  decreasing : top.Pairwise fun a b => b.2 ≤ a.2
  /-- Classes with as many usages stand in the order of discovery. -/
  ties : top.Pairwise fun a b =>
    a.2 = b.2 → discoveryPlace history a.1 < discoveryPlace history b.1
  /-- A class that is left out has not more usages than a listed one, and if it has as many, it was
  discovered later. -/
  left_out : ∀ dependency ∈ dependenciesIn history, dependency ∉ top.map Prod.fst →
    ∀ item ∈ top, useCount history dependency ≤ item.2 ∧
      (item.2 = useCount history dependency →
        discoveryPlace history item.1 < discoveryPlace history dependency)

/-! ### The order of all classes -/

/-- One class is ahead of another if it has more usages, or as many and was discovered first. -/
def IsAhead (a b : Text × Nat) : Prop :=
  b.2 < a.2 ∨ a.2 = b.2 ∧ discoveryPlace history a.1 < discoveryPlace history b.1

/-- The classes in the order of discovery, with the numbers of their usages. -/
def useCounts : List (Text × Nat) :=
  (dependenciesIn history).map fun dependency => (dependency, useCount history dependency)

/-- All classes in the order of their usages. -/
def ranking : List (Text × Nat) := (useCounts history).mergeSort fun a b => b.2 ≤ a.2

variable {history}

/-- No class is ahead of itself, since it has as many usages as itself and one place of
discovery. -/
theorem IsAhead.irrefl (a : Text × Nat) : ¬ IsAhead history a a := by
  unfold IsAhead
  omega

/-- Of two classes at most one is ahead of the other. With `IsAhead.irrefl` this makes the order
strict, so it can be arranged in one way only. -/
theorem IsAhead.asymm (a b : Text × Nat) (h : IsAhead history a b) : ¬ IsAhead history b a := by
  unfold IsAhead at *
  omega

/-- Who is ahead has at least as many usages, and with as many was discovered first. This is the
form in which `IsMostUsed` speaks of the order. -/
theorem isAhead_iff {a b : Text × Nat} : IsAhead history a b ↔ b.2 ≤ a.2 ∧
    (a.2 = b.2 → discoveryPlace history a.1 < discoveryPlace history b.1) := by
  unfold IsAhead
  omega

/-- The two conditions of `IsMostUsed` on the order say together that a list is in this order. -/
theorem pairwise_isAhead_iff {top : List (Text × Nat)} : top.Pairwise (IsAhead history) ↔
    (top.Pairwise fun a b => b.2 ≤ a.2) ∧ top.Pairwise fun a b =>
      a.2 = b.2 → discoveryPlace history a.1 < discoveryPlace history b.1 := by
  rw [← List.pairwise_and_iff]
  exact List.Pairwise.iff fun _ _ => isAhead_iff

/-- The classes that are ranked are those of the history, each with the number of its usages. -/
theorem mem_useCounts {item : Text × Nat} : item ∈ useCounts history ↔
    item.1 ∈ dependenciesIn history ∧ item.2 = useCount history item.1 := by
  obtain ⟨dependency, count⟩ := item
  simp [useCounts, eq_comm]

/-- The sort neither adds nor drops a class, and it leaves the numbers as they are. -/
theorem mem_ranking {item : Text × Nat} : item ∈ ranking history ↔
    item.1 ∈ dependenciesIn history ∧ item.2 = useCount history item.1 :=
  List.mem_mergeSort.trans mem_useCounts

/-- So the ranking has one place for each class. -/
theorem length_ranking : (ranking history).length = (dependenciesIn history).length := by
  rw [ranking, List.length_mergeSort, useCounts, List.length_map]

/-- No class is ranked twice, since none is discovered twice. -/
theorem nodup_map_fst_ranking : ((ranking history).map Prod.fst).Nodup := by
  have hperm := (List.mergeSort_perm (useCounts history) fun a b => b.2 ≤ a.2).map Prod.fst
  have hkeys : (useCounts history).map Prod.fst = dependenciesIn history := by
    rw [useCounts, List.map_map]
    exact List.map_id _
  rw [hkeys] at hperm
  exact hperm.nodup_iff.2 (nodup_dependenciesIn history)

/-- **All classes are in a strict order**: the sort by the numbers of usages leaves classes with as
many usages in the order of discovery. That the sort is stable is used here and nowhere else. -/
theorem pairwise_isAhead_ranking (history : List Usage) :
    (ranking history).Pairwise (IsAhead history) := by
  have hdiscovery : (useCounts history).Pairwise fun a b =>
      discoveryPlace history a.1 < discoveryPlace history b.1 :=
    List.pairwise_map.2 (pairwise_idxOf (nodup_dependenciesIn history))
  -- The sort keeps classes with as many usages in the order in which it gets them.
  have hstable := pairwise_mergeSort_of_pairwise (fun a b : Text × Nat => b.2 ≤ a.2)
    (fun a b c hab hbc => by simp only [decide_eq_true_eq] at *; omega)
    (fun a b => by simp only [Bool.or_eq_true, decide_eq_true_eq]; omega)
    (fun a => Nat.lt_irrefl _) (fun a b => Nat.lt_asymm) hdiscovery
  refine hstable.imp fun {a b} h => ?_
  simp only [decide_eq_true_eq] at h
  exact isAhead_iff.2 ⟨h.1, fun heq => h.2 (Nat.le_of_eq heq)⟩

/-! ### The front of the order -/

/-- A front of the ranking is in the same order as the whole. -/
theorem pairwise_isAhead_take (history : List Usage) (limit : Nat) :
    ((ranking history).take limit).Pairwise (IsAhead history) :=
  (pairwise_isAhead_ranking history).sublist (List.take_sublist _ _)

/-- The front of the order is a list of the most used classes. What has been cut off comes behind
everything at the front, which is what the condition on classes that are left out asks for. -/
theorem isMostUsed_take (history : List Usage) (limit : Nat) :
    IsMostUsed history limit ((ranking history).take limit) where
  length_eq := by rw [List.length_take, length_ranking]
  counts item hitem := mem_ranking.1 (List.mem_of_mem_take hitem)
  nodup := by
    rw [List.map_take]
    exact nodup_map_fst_ranking.sublist (List.take_sublist _ _)
  decreasing := (pairwise_isAhead_iff.1 (pairwise_isAhead_take history limit)).1
  ties := (pairwise_isAhead_iff.1 (pairwise_isAhead_take history limit)).2
  left_out dependency hdependency hout item hitem := by
    -- What is not at the front comes behind all that is.
    have hsplit := pairwise_isAhead_ranking history
    rw [← List.take_append_drop limit (ranking history)] at hsplit
    have hmem : (dependency, useCount history dependency) ∈ ranking history :=
      mem_ranking.2 ⟨hdependency, rfl⟩
    rw [← List.take_append_drop limit (ranking history)] at hmem
    have hdrop := (List.mem_append.1 hmem).resolve_left fun h =>
      hout (List.mem_map_of_mem (f := Prod.fst) h)
    exact isAhead_iff.1 ((List.pairwise_append.1 hsplit).2.2 item hitem _ hdrop)

/-- A list of the most used classes is the front of the order. Such a list is in the order itself,
and what it leaves out comes behind it; there is only one such part of a strictly ordered list. -/
theorem IsMostUsed.eq_take {limit : Nat} {top : List (Text × Nat)}
    (h : IsMostUsed history limit top) : top = (ranking history).take limit := by
  have hordered : top.Pairwise (IsAhead history) :=
    pairwise_isAhead_iff.2 ⟨h.decreasing, h.ties⟩
  have hfront : top = (ranking history).take top.length := by
    refine eq_take_of_pairwise IsAhead.irrefl IsAhead.asymm (pairwise_isAhead_ranking history)
      hordered (fun item hitem => mem_ranking.2 (h.counts item hitem))
      fun item hitem hout listed hlisted => ?_
    obtain ⟨hdependency, hcount⟩ := mem_ranking.1 hitem
    -- Items agree if their classes do, so the class is not listed with another number either.
    have hnot : item.1 ∉ top.map Prod.fst := by
      intro hmem
      obtain ⟨other, hother, hsame⟩ := List.mem_map.1 hmem
      have hitem_eq : other = item :=
        Prod.ext hsame (by rw [(h.counts other hother).2, hcount, hsame])
      exact hout (hitem_eq ▸ hother)
    have hbehind := h.left_out item.1 hdependency hnot listed hlisted
    exact isAhead_iff.2 (hcount ▸ hbehind)
  rw [hfront, h.length_eq, ← length_ranking, ← List.take_eq_take_min]

/-- So the conditions determine the list, for every number of classes that may be asked for. -/
theorem isMostUsed_iff {limit : Nat} {top : List (Text × Nat)} :
    IsMostUsed history limit top ↔ top = (ranking history).take limit :=
  ⟨IsMostUsed.eq_take, fun h => h ▸ isMostUsed_take history limit⟩

end

namespace UsageMap

section

variable {map : UsageMap} {history : List Usage} (h : Gathers map history)

include h

/-- The most used classes of a map are the front of the order of all its classes. The entries of the
map stand in the order of discovery, so the program sorts the same list. -/
theorem Gathers.mostUsed_eq (limit : Nat) : map.mostUsed limit = (ranking history).take limit := by
  unfold mostUsed
  rw [h.entries_eq, grouped, List.map_map]
  rfl

end

/-- **The most used classes of a map are determined by its history.** For a map that came about in
whichever way:

1. the list is the only one that is `IsMostUsed` for the usages that were recorded;
2. it has as many members as were asked for, or as there are classes;
3. each member is a class of the map with the number of its consumers;
4. the list is the front of every longer one. -/
theorem mostUsed_determined (steps : List Step) (limit : Nat) :
    (∀ top, IsMostUsed (recorded steps) limit top ↔ top = (run steps).mostUsed limit) ∧
    ((run steps).mostUsed limit).length = min limit (run steps).size ∧
    (∀ item ∈ (run steps).mostUsed limit, ∃ consumers,
      (run steps).consumers? item.1 = some consumers ∧ item.2 = consumers.length) ∧
    ∀ larger, limit ≤ larger → (run steps).mostUsed limit <+: (run steps).mostUsed larger := by
  have h := gathers_run steps
  have htop := isMostUsed_take (recorded steps) limit
  simp only [h.mostUsed_eq]
  refine ⟨fun top => isMostUsed_iff, ?_, fun item hitem => ?_, fun larger hle =>
    List.take_prefix_take_left hle⟩
  · rw [htop.length_eq, size, h.entries_eq, grouped, List.length_map]
  · obtain ⟨hdependency, hcount⟩ := htop.counts item hitem
    exact ⟨_, (h.consumers?_eq_some_iff _ _).2 ⟨mem_dependenciesIn.1 hdependency, rfl⟩, hcount⟩

end UsageMap

end ImportCensus

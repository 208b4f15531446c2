import Mathlib.Data.List.Basic
import ImportCensus.Proofs.Census.Modes

/-!
# `ImportCensus.Proofs.Census.Items`: what a census makes of the items of a walk

In either mode a tree is worked through to the first fault, and if there is none its units are put
together. Which fault comes first depends on the mode, and `firstFault?` says how.

Most items add nothing. Those that count are the breaks of the walk, the units that have a text, and
the units that cannot be read. Walks below a root that meet the same items that count (`MeetSame`)
lead to the same classes and the same usages, whatever else they meet.

* `result_gatherUsages`, `result_collectClasses`: one equation for both modes.
* `MeetSame.gatherUsages_eq`, `MeetSame.collectClasses_eq`, `census_eq_of_meetSame`: two walks.
-/

set_option autoImplicit false

namespace ImportCensus

/-! ### Both modes in one -/

/-- The fault with which a mode ends on the items of a walk. Phases look for breaks of the walk
before they read a unit. -/
def firstFault? (parallel : Bool) (root : Text) (items : List WalkItem) : Option Fault :=
  if parallel then
    (items.findSome? (WalkItem.break? root)).or ((unitsOf items).findSome? SourceFile.fault?)
  else items.findSome? (WalkItem.fault? root SourceFile.fault?)

/-- Two computations with faults of their own, one after the other, end with the first fault of the
two. -/
theorem settle_bind_settle {α β : Type} (first? : Option Fault) (a : α) (next? : α → Option Fault)
    (f : α → β) :
    ((settle first? a).bind fun a => settle (next? a) (f a)) =
      settle (first?.or (next? a)) (f a) := by
  cases first? <;> rfl

namespace FileSystem

/-- The units that are found and then read and combined end with the first fault of phases. So both
modes have one form, and differ only in which fault of the walk comes first. -/
theorem bind_result_findUnits {β : Type} (fs : FileSystem) (sorted : Bool) (root : Text)
    (combine : List SourceFile → β) :
    ((fs.findUnits sorted root).result.bind fun files =>
        settle (files.findSome? SourceFile.fault?) (combine files)) =
      (fs.checkRoot root).bind fun stop =>
        settle (firstFault? true root (fs.walk sorted stop))
          (combine (unitsOf (fs.walk sorted stop))) := by
  rw [result_findUnits]
  cases fs.checkRoot root with
  | error fault => rfl
  | ok stop => exact settle_bind_settle _ _ (List.findSome? SourceFile.fault?) combine

/-- The usages of a tree, in either mode: those of all units in the order of the walk, unless a
fault comes before them. -/
theorem result_gatherUsages (fs : FileSystem) (options : CensusOptions) (scanner : Scanner)
    (known : ClassSet) (root : Text) :
    (fs.gatherUsages options scanner known root).result =
      (fs.checkRoot root).bind fun stop =>
        settle (firstFault? options.parallel root (fs.walk options.sorted stop))
          (UsageMap.empty.recordAll
            ((unitsOf (fs.walk options.sorted stop)).map
              (SourceFile.foundUsages scanner known)).flatten) := by
  obtain ⟨sorted, parallel⟩ := options
  cases parallel with
  | false => exact result_gatherUsages_onePass fs sorted scanner known root
  | true =>
    rw [result_gatherUsages_phases]
    exact bind_result_findUnits fs sorted root fun files =>
      UsageMap.empty.recordAll (files.map (SourceFile.foundUsages scanner known)).flatten

/-- The classes of a tree, in either mode: those of all units, unless a fault comes before them. -/
theorem result_collectClasses (fs : FileSystem) (options : CensusOptions) (root : Text) :
    (fs.collectClasses options root).result =
      (fs.checkRoot root).bind fun stop =>
        settle (firstFault? options.parallel root (fs.walk options.sorted stop))
          (((unitsOf (fs.walk options.sorted stop)).map SourceFile.declaredUnit).foldl
            ClassSet.insertUnit .empty) := by
  obtain ⟨sorted, parallel⟩ := options
  cases parallel with
  | false => exact result_collectClasses_onePass fs sorted root
  | true =>
    rw [result_collectClasses_phases]
    exact bind_result_findUnits fs sorted root fun files =>
      (files.map SourceFile.declaredUnit).foldl ClassSet.insertUnit .empty

end FileSystem

/-! ### Items that count -/

/-- Tests for a file that adds to a census, or that keeps it from its end. -/
def SourceFile.counts (file : SourceFile) : Bool := file.fault?.isSome || file.source?.isSome

/-- Tests for an item that adds to a census, or that keeps it from its end. -/
def WalkItem.counts : WalkItem → Bool
  | .broken _ => true
  | .file found => CompilationUnit.isFileName found.name && found.counts
  | _ => false

/-- A search finds the same among some elements as in the whole list, if it finds nothing among the
others. -/
theorem findSome?_filter_of_none {α β : Type} {p : α → Bool} {f : α → Option β} {xs : List α}
    (h : ∀ x, p x = false → f x = none) : (xs.filter p).findSome? f = xs.findSome? f := by
  induction xs with
  | nil => rfl
  | cons x xs ih =>
    cases hp : p x with
    | true => rw [List.filter_cons_of_pos hp, List.findSome?_cons, List.findSome?_cons, ih]
    | false =>
      rw [List.filter_cons_of_neg (by simp [hp]), List.findSome?_cons, h x hp, ih]

/-- What some elements of a list give is what the whole list gives, if the others give nothing. -/
theorem flatMap_filter_of_nil {α β : Type} {p : α → Bool} {f : α → List β} {xs : List α}
    (h : ∀ x ∈ xs, p x = false → f x = []) : (xs.filter p).flatMap f = xs.flatMap f := by
  induction xs with
  | nil => rfl
  | cons x xs ih =>
    obtain ⟨hx, hxs⟩ := List.forall_mem_cons.1 h
    cases hp : p x with
    | true => rw [List.filter_cons_of_pos hp, List.flatMap_cons, List.flatMap_cons, ih hxs]
    | false =>
      rw [List.filter_cons_of_neg (by simp [hp]), List.flatMap_cons, hx hp, ih hxs,
        List.nil_append]

namespace SourceFile

/-- A file that does not count can be read and is not UTF-8. It has no fault and no text, so neither
what it adds nor how the census ends depends on it. -/
theorem not_counts_iff {file : SourceFile} :
    file.counts = false ↔ file.fault? = none ∧ file.source? = none := by
  simp [counts]

/-- A scanner is given a text, so it finds nothing in such a file, whatever scanner it is. -/
theorem foundUsages_of_not_counts {file : SourceFile} (h : file.counts = false) (scanner : Scanner)
    (known : ClassSet) : file.foundUsages scanner known = [] := by
  rw [foundUsages, (not_counts_iff.1 h).2]

/-- It adds no class, since it declares no package. -/
theorem insertUnit_of_not_counts {file : SourceFile} (h : file.counts = false) (set : ClassSet) :
    set.insertUnit file.declaredUnit = set := by
  rw [declaredUnit, (not_counts_iff.1 h).2]
  rfl

end SourceFile

/-- The units among the items that count are those that count. Files that are no units are left out
on both sides, and so are directories and links without a target. -/
theorem unitsOf_filter_counts (items : List WalkItem) :
    unitsOf (items.filter WalkItem.counts) = (unitsOf items).filter SourceFile.counts := by
  unfold unitsOf
  induction items with
  | nil => rfl
  | cons item items ih =>
    cases item with
    | directory path => exact ih
    | dangling path => exact ih
    | broken cause => exact ih
    | file file =>
      -- A file without the name of a unit is left out on both sides.
      by_cases hname : CompilationUnit.isFileName file.name = true
      · cases hcounts : file.counts <;>
          simp [WalkItem.counts, WalkItem.unit?, hname, hcounts, ih]
      · simp [WalkItem.counts, WalkItem.unit?, hname, ih]

/-! ### Results depend on what counts -/

section

variable {items other : List WalkItem}
  (h : items.filter WalkItem.counts = other.filter WalkItem.counts)

include h

/-- A search that finds nothing at items that do not count finds the same in both walks. -/
theorem findSome?_eq_of_filter_eq {f : WalkItem → Option Fault}
    (hf : ∀ item, item.counts = false → f item = none) :
    items.findSome? f = other.findSome? f := by
  rw [← findSome?_filter_of_none hf, h, findSome?_filter_of_none hf]

/-- Both walks have the same units that count, in the same order. -/
theorem filter_unitsOf_eq :
    (unitsOf items).filter SourceFile.counts = (unitsOf other).filter SourceFile.counts := by
  rw [← unitsOf_filter_counts, h, unitsOf_filter_counts]

/-- The fault with which a mode ends is that of an item that counts. One pass looks at all items at
once. The phases look at the breaks and then at the units, and neither kind is lost. -/
theorem firstFault?_eq (parallel : Bool) (root : Text) :
    firstFault? parallel root items = firstFault? parallel root other := by
  have hbreak : items.findSome? (WalkItem.break? root) = other.findSome? (WalkItem.break? root) :=
    findSome?_eq_of_filter_eq h fun item hitem => by
      cases item with
      | broken cause => cases hitem
      | _ => rfl
  cases parallel with
  | true =>
    -- In phases: what does not count can be read, so the first fault is that of a file that counts.
    have hread (files : List SourceFile) :
        (files.filter SourceFile.counts).findSome? SourceFile.fault? =
          files.findSome? SourceFile.fault? :=
      findSome?_filter_of_none fun file hfile => (SourceFile.not_counts_iff.1 hfile).1
    show (items.findSome? _).or _ = (other.findSome? _).or _
    rw [hbreak, ← hread, filter_unitsOf_eq h, hread]
  | false =>
    -- In one pass: no item that is filtered out has a fault of its own.
    refine findSome?_eq_of_filter_eq h fun item hitem => ?_
    cases item with
    | broken cause => cases hitem
    | directory path => rfl
    | dangling path => rfl
    | file file =>
      by_cases hname : CompilationUnit.isFileName file.name = true
      · have hcounts : file.counts = false := by simpa [WalkItem.counts, hname] using hitem
        simp [WalkItem.fault?, WalkItem.break?, WalkItem.unit?, hname,
          (SourceFile.not_counts_iff.1 hcounts).1]
      · simp [WalkItem.fault?, WalkItem.break?, WalkItem.unit?, hname]

end

/-- Files that do not count have no usages, so all usages are those of the files that count. -/
theorem flatten_foundUsages_filter (scanner : Scanner) (known : ClassSet)
    (files : List SourceFile) :
    ((files.filter SourceFile.counts).map (SourceFile.foundUsages scanner known)).flatten =
      (files.map (SourceFile.foundUsages scanner known)).flatten := by
  rw [← List.flatMap_def, ← List.flatMap_def]
  exact flatMap_filter_of_nil fun file _ h => SourceFile.foundUsages_of_not_counts h scanner known

/-- Files that do not count add no class, so the set is that of the files that count. -/
theorem foldl_declaredUnit_filter (files : List SourceFile) (set : ClassSet) :
    ((files.filter SourceFile.counts).map SourceFile.declaredUnit).foldl ClassSet.insertUnit set =
      (files.map SourceFile.declaredUnit).foldl ClassSet.insertUnit set := by
  rw [List.foldl_map, List.foldl_map, List.foldl_filter]
  congr 1
  funext set file
  split
  · rfl
  · next h => exact (SourceFile.insertUnit_of_not_counts (Bool.eq_false_iff.2 h) set).symm

namespace FileSystem

/-! ### Walks that meet the same -/

variable {fs other : FileSystem} {sorted : Bool} {root : Text}

/-- The walks below a root start alike and meet the same items that count. -/
structure MeetSame (fs other : FileSystem) (sorted : Bool) (root : Text) : Prop where
  checkRoot_eq : other.checkRoot root = fs.checkRoot root
  filter_walk : ∀ stop, fs.checkRoot root = .ok stop →
    (other.walk sorted stop).filter WalkItem.counts = (fs.walk sorted stop).filter WalkItem.counts

/-- A mode ends in the same way on such walks, if its result depends on the files that count. The
fault agrees by `firstFault?_eq`, and the units are compared after the others have been left out. -/
theorem MeetSame.bind_settle_eq {β : Type} (h : MeetSame fs other sorted root) (parallel : Bool)
    (combine : List SourceFile → β)
    (hcombine : ∀ files, combine (files.filter SourceFile.counts) = combine files) :
    ((other.checkRoot root).bind fun stop =>
        settle (firstFault? parallel root (other.walk sorted stop))
          (combine (unitsOf (other.walk sorted stop)))) =
      (fs.checkRoot root).bind fun stop =>
        settle (firstFault? parallel root (fs.walk sorted stop))
          (combine (unitsOf (fs.walk sorted stop))) := by
  rw [h.checkRoot_eq]
  cases hroot : fs.checkRoot root with
  | error fault => rfl
  | ok stop =>
    have hwalk := h.filter_walk stop hroot
    show settle _ _ = settle _ _
    rw [firstFault?_eq hwalk, ← hcombine, filter_unitsOf_eq hwalk, hcombine]

/-- The same usages are gathered on such walks, and with the same fault if there is one. -/
theorem MeetSame.gatherUsages_eq {options : CensusOptions}
    (h : MeetSame fs other options.sorted root) (scanner : Scanner) (known : ClassSet) :
    (other.gatherUsages options scanner known root).result =
      (fs.gatherUsages options scanner known root).result := by
  rw [result_gatherUsages, result_gatherUsages]
  exact h.bind_settle_eq options.parallel
    (fun files =>
      UsageMap.empty.recordAll (files.map (SourceFile.foundUsages scanner known)).flatten)
    fun files => congrArg UsageMap.empty.recordAll (flatten_foundUsages_filter scanner known files)

/-- The same classes are collected on them. -/
theorem MeetSame.collectClasses_eq {options : CensusOptions}
    (h : MeetSame fs other options.sorted root) :
    (other.collectClasses options root).result = (fs.collectClasses options root).result := by
  rw [result_collectClasses, result_collectClasses]
  exact h.bind_settle_eq options.parallel
    (fun files => (files.map SourceFile.declaredUnit).foldl ClassSet.insertUnit .empty)
    fun files => foldl_declaredUnit_filter files .empty

/-- So two pairs of such walks lead to the same census. The classes of the first part go into the
second one, and they are the same there. -/
theorem census_eq_of_meetSame {options : CensusOptions} {source target : Text}
    (hsource : MeetSame fs other options.sorted source)
    (htarget : MeetSame fs other options.sorted target) :
    (other.census options source target).result = (fs.census options source target).result := by
  simp only [census, Traced.result_bind, hsource.collectClasses_eq, htarget.gatherUsages_eq]

end FileSystem

end ImportCensus

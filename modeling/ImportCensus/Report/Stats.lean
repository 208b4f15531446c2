import ImportCensus.ClassSet
import ImportCensus.Usage

/-!
# `ImportCensus.Report.Stats`: the numbers of a census

How many classes there are, how many of them are used, how often, and which are used most.
-/

set_option autoImplicit false

namespace ImportCensus

/-- The numbers of a census. -/
structure UsageStats where
  /-- The classes of the source tree. -/
  classes : Nat
  /-- Those of them that are imported at all. -/
  usedClasses : Nat
  usages : Nat
  deriving DecidableEq, Repr

namespace UsageStats

/-- The numbers for a set of classes and the usages of classes. -/
def compute (classes : ClassSet) (usages : UsageMap) : UsageStats :=
  ⟨classes.size, usages.size, usages.usageCount⟩

/-- The share of the classes that are used, in percent. Of no classes, none are used. -/
def coverage (stats : UsageStats) : Float :=
  if stats.classes = 0 then 0.0
  else Float.ofNat stats.usedClasses * 100.0 / Float.ofNat stats.classes

end UsageStats

/-- The classes with the most usages and their numbers of usages, at most `limit` of them, in
decreasing order. Classes with as many usages stand in the order of their discovery. -/
def UsageMap.mostUsed (map : UsageMap) (limit : Nat) : List (Text × Nat) :=
  let counts := map.entries.map fun entry => (entry.dependency, entry.consumers.length)
  (counts.mergeSort fun a b => b.2 ≤ a.2).take limit

end ImportCensus

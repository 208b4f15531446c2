import Std.Data.HashMap
import ImportCensus.Text.Basic

/-!
# `ImportCensus.Usage`: usages, and the map that gathers them

A usage says that one class, the consumer, imports another, the dependency. A `UsageMap` gathers
usages in the order of their discovery: the dependencies in the order of their first usage, and
for each its consumers in the order of theirs, repetitions included.

The map keeps its entries in a list and, beside it, the place of each dependency. Recording a
usage looks the place up and appends there; a new dependency gets a new place at the end.
-/

set_option autoImplicit false

namespace ImportCensus

/-- One class of the target tree that imports one class of the source tree. -/
structure Usage where
  /-- The qualified name of the imported class. -/
  dependency : Text
  /-- The qualified name of the importing class. -/
  consumer : Text
  deriving DecidableEq, Repr

/-- A dependency with its consumers, in the order of discovery. -/
structure UsageEntry where
  dependency : Text
  consumers : List Text
  deriving DecidableEq, Repr

/-- Texts are hashed as strings. -/
instance : Hashable Text := ⟨fun t => hash (String.ofList t)⟩

/-- The consumers of each dependency, in the order of discovery. -/
structure UsageMap where
  /-- One entry for each dependency. -/
  entries : List UsageEntry
  /-- The place of each dependency in `entries`. -/
  places : Std.HashMap Text Nat

namespace UsageEntry

/-- The entry with one more consumer at its end. -/
def addConsumer (entry : UsageEntry) (consumer : Text) : UsageEntry :=
  { entry with consumers := entry.consumers ++ [consumer] }

end UsageEntry

namespace UsageMap

/-- The map without usages. -/
def empty : UsageMap := ⟨[], ∅⟩

instance : EmptyCollection UsageMap := ⟨empty⟩

/-- Maps agree when their entries and the places of their dependencies do. -/
instance : BEq UsageMap := ⟨fun m₁ m₂ => m₁.entries == m₂.entries && m₁.places == m₂.places⟩

/-- Gathers one more usage: at the end of its dependency's entry, or in a new entry if the
dependency has none. -/
def record (map : UsageMap) (usage : Usage) : UsageMap :=
  match map.places[usage.dependency]? with
  | some place => { map with entries := map.entries.modify place (·.addConsumer usage.consumer) }
  | none =>
    -- The place of a new entry is the number of those in front of it.
    { entries := map.entries ++ [⟨usage.dependency, [usage.consumer]⟩]
      places := map.places.insert usage.dependency map.entries.length }

/-- Gathers usages one after the other. -/
def recordAll (map : UsageMap) (usages : List Usage) : UsageMap := usages.foldl record map

/-- The usages that entries stand for, in order. An entry without consumers stands for none. -/
def usagesOf (entries : List UsageEntry) : List Usage :=
  entries.flatMap fun entry => entry.consumers.map fun consumer => ⟨entry.dependency, consumer⟩

/-- The map that gathers the usages of the given entries. -/
def ofEntries (entries : List UsageEntry) : UsageMap := empty.recordAll (usagesOf entries)

/-- All usages in the map, entry by entry. -/
def usages (map : UsageMap) : List Usage := usagesOf map.entries

/-- The consumers of a dependency, if it has any. -/
def consumers? (map : UsageMap) (dependency : Text) : Option (List Text) :=
  map.places[dependency]?.bind fun place => map.entries[place]?.map UsageEntry.consumers

/-- The number of dependencies. -/
def size (map : UsageMap) : Nat := map.entries.length

/-- The number of usages. -/
def usageCount (map : UsageMap) : Nat :=
  map.entries.foldr (fun entry count => entry.consumers.length + count) 0

end UsageMap

end ImportCensus

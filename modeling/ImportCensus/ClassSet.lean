import ImportCensus.CompilationUnit

/-!
# `ImportCensus.ClassSet`: sets of qualified names

The classes that one tree declares. The names are kept in increasing order and without
repetition, so two sets with the same members are equal, in whichever order they were filled.

- `ClassSet.mem_insert`: what insertion adds.
- `ClassSet.ext_mem`: a set is determined by its members.
-/

set_option autoImplicit false

namespace ImportCensus

/-- A set of qualified class names, in increasing order. -/
structure ClassSet where
  names : List Text
  increasing : names.Pairwise (· < ·)

namespace ClassSet

/-- Puts a name at its place in a list in increasing order, unless it is there already. -/
def insertOrdered (name : Text) : List Text → List Text
  | [] => [name]
  | head :: rest =>
    if name < head then name :: head :: rest
    else if name = head then head :: rest
    else head :: insertOrdered name rest

/-- The name is in the list afterwards, with all that were there before. -/
theorem mem_insertOrdered {name x : Text} {names : List Text} :
    x ∈ insertOrdered name names ↔ x = name ∨ x ∈ names := by
  induction names with
  | nil => simp [insertOrdered]
  | cons head rest ih =>
    rw [insertOrdered]
    split
    · simp
    · split
      · next h => subst h; simp
      · simp [ih, or_left_comm]

/-- The list is in increasing order again, so no name is in it twice. -/
theorem pairwise_insertOrdered {name : Text} {names : List Text}
    (h : names.Pairwise (· < ·)) : (insertOrdered name names).Pairwise (· < ·) := by
  induction names with
  | nil => simp [insertOrdered]
  | cons head rest ih =>
    have ⟨below, tail⟩ := List.pairwise_cons.1 h
    rw [insertOrdered]
    split
    · next lt =>
      refine List.pairwise_cons.2 ⟨fun x hx => ?_, h⟩
      rcases List.mem_cons.1 hx with rfl | hx
      · exact lt
      · exact List.lt_trans lt (below x hx)
    · next notLt =>
      split
      · exact h
      · next ne =>
        refine List.pairwise_cons.2 ⟨fun x hx => ?_, ih tail⟩
        rcases mem_insertOrdered.1 hx with rfl | hx
        · exact Decidable.byContradiction fun notGt =>
            ne (List.le_antisymm (List.not_lt.1 notGt) (List.not_lt.1 notLt))
        · exact below x hx

/-- The set without members. -/
def empty : ClassSet := ⟨[], .nil⟩

/-- The set with one more member. -/
def insert (set : ClassSet) (name : Text) : ClassSet :=
  ⟨insertOrdered name set.names, pairwise_insertOrdered set.increasing⟩

/-- Tests for membership. -/
def contains (set : ClassSet) (name : Text) : Bool := set.names.contains name

/-- The number of members. -/
def size (set : ClassSet) : Nat := set.names.length

/-- The set with the members of a list. -/
def ofList (names : List Text) : ClassSet := names.foldl insert empty

/-- The set with the class of a compilation unit, which counts only if it has a package. -/
def insertUnit (set : ClassSet) (unit : CompilationUnit) : ClassSet :=
  if unit.hasPackage then set.insert unit.qualifiedName else set

instance : Membership Text ClassSet := ⟨fun set name => name ∈ set.names⟩

/-- A name is a member if it is in the list. -/
@[simp] theorem mem_names {set : ClassSet} {name : Text} : name ∈ set.names ↔ name ∈ set := .rfl

/-- The test for membership says what membership means. -/
@[simp] theorem contains_iff {set : ClassSet} {name : Text} :
    set.contains name = true ↔ name ∈ set := by simp [contains]

/-- The empty set has no member. -/
@[simp] theorem not_mem_empty {name : Text} : name ∉ empty := by simp [← mem_names, empty]

/-- Inserting a name adds it and nothing else. The order of the list does not show in this. -/
@[simp] theorem mem_insert {set : ClassSet} {name x : Text} :
    x ∈ set.insert name ↔ x = name ∨ x ∈ set := mem_insertOrdered

/-- A list in increasing order is determined by its members. -/
theorem eq_of_increasing {l₁ l₂ : List Text} (h₁ : l₁.Pairwise (· < ·))
    (h₂ : l₂.Pairwise (· < ·)) (same : ∀ x, x ∈ l₁ ↔ x ∈ l₂) : l₁ = l₂ := by
  induction l₁ generalizing l₂ with
  | nil =>
    cases l₂ with
    | nil => rfl
    | cons y ys => exact absurd ((same y).2 (by simp)) (by simp)
  | cons x xs ih =>
    cases l₂ with
    | nil => exact absurd ((same x).1 (by simp)) (by simp)
    | cons y ys =>
      have ⟨belowX, tailX⟩ := List.pairwise_cons.1 h₁
      have ⟨belowY, tailY⟩ := List.pairwise_cons.1 h₂
      have heads : x = y := by
        rcases List.mem_cons.1 ((same x).1 (by simp)) with e | hx
        · exact e
        · rcases List.mem_cons.1 ((same y).2 (by simp)) with e | hy
          · exact e.symm
          · exact absurd (List.lt_trans (belowX y hy) (belowY x hx)) (List.lt_irrefl x)
      subst heads
      refine congrArg (x :: ·) (ih tailX tailY fun z => ⟨fun hz => ?_, fun hz => ?_⟩)
      · rcases List.mem_cons.1 ((same z).1 (List.mem_cons_of_mem x hz)) with rfl | h
        · exact absurd (belowX z hz) (List.lt_irrefl z)
        · exact h
      · rcases List.mem_cons.1 ((same z).2 (List.mem_cons_of_mem x hz)) with rfl | h
        · exact absurd (belowY z hz) (List.lt_irrefl z)
        · exact h

/-- Sets with the same members are equal. -/
theorem ext_mem {s t : ClassSet} (same : ∀ x, x ∈ s ↔ x ∈ t) : s = t := by
  cases s with | mk xs hx =>
  cases t with | mk ys hy =>
  have names : xs = ys := eq_of_increasing hx hy same
  subst names
  rfl

instance : DecidableEq ClassSet := fun s t =>
  decidable_of_iff (s.names = t.names)
    ⟨fun h => ext_mem fun x => by rw [← mem_names, h, mem_names], fun h => h ▸ rfl⟩

end ClassSet

end ImportCensus

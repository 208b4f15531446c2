import Mathlib.Data.List.Pairwise
import Mathlib.Data.List.Perm.Basic

/-!
# `ImportCensus.Proofs.Arrangement`: lists in a strict order

A list is in a strict order if each member comes before all that follow it. The members and the
order determine such a list, and a part of it that is ahead of everything else is its front.

* `mergeSort_eq_of_pairwise`: there is one arrangement only in a strict order, and sorting finds it.
* `eq_take_of_pairwise`: what is ahead of all other members is the front of the list.
* `pairwise_mergeSort_of_pairwise`: a list that was in a strict order and is sorted by something
  else is in a strict order again. Where the sort does not decide, the old order does.
-/

set_option autoImplicit false

namespace ImportCensus

/-- Of two different members of a list in a strict order, one comes before the other. Either stands
in front of the other in the list, so the order need not be total on anything but the members. -/
theorem lt_or_lt_of_pairwise {α : Type} {lt : α → α → Prop} {xs : List α} (hxs : xs.Pairwise lt)
    {a b : α} (ha : a ∈ xs) (hb : b ∈ xs) (hne : a ≠ b) : lt a b ∨ lt b a := by
  have : Std.Symm fun a b => lt a b ∨ lt b a := ⟨fun _ _ => Or.symm⟩
  have heither : xs.Pairwise fun a b => lt a b ∨ lt b a := hxs.imp Or.inl
  exact heither.forall ha hb hne

/-- A list in a strict order has no repetitions. A member that stood in it twice would come before
itself, which an irreflexive order rules out. -/
theorem nodup_of_pairwise {α : Type} {lt : α → α → Prop} (hirrefl : ∀ a, ¬ lt a a) {xs : List α}
    (hxs : xs.Pairwise lt) : xs.Nodup := by
  have hne {a b : α} (hlt : lt a b) : a ≠ b := fun heq => hirrefl b (heq ▸ hlt)
  exact hxs.imp hne

/-- A list that is in a strict order is found by sorting any arrangement of it. Sorting leaves no
member in front of one that comes before it. Different members of the list are comparable, so no
other arrangement has that property. -/
theorem mergeSort_eq_of_pairwise {α : Type} (lt : α → α → Prop) [DecidableRel lt]
    (hasymm : ∀ a b, lt a b → ¬ lt b a)
    (htrans : ∀ a b c, ¬ lt b a → ¬ lt c b → ¬ lt c a) {sorted found : List α}
    (hsorted : sorted.Pairwise lt) (hperm : found.Perm sorted) :
    found.mergeSort (fun a b => !decide (lt b a)) = sorted := by
  have hfound : (found.mergeSort fun a b => !decide (lt b a)).Pairwise fun a b => ¬ lt b a := by
    have hpairwise : (found.mergeSort fun a b => !decide (lt b a)).Pairwise
        fun a b => (!decide (lt b a)) = true :=
      List.pairwise_mergeSort
        (fun a b c hab hbc => by
          simp only [Bool.not_eq_true', decide_eq_false_iff_not] at hab hbc ⊢
          exact htrans a b c hab hbc)
        (fun a b => by
          simp only [Bool.or_eq_true, Bool.not_eq_true', decide_eq_false_iff_not]
          exact Decidable.or_iff_not_imp_left.2 fun h => hasymm b a (Decidable.not_not.1 h)) found
    exact hpairwise.imp fun h => by simpa using h
  -- Both are arrangements of the same members, so it is enough that two of them cannot stand both
  -- ways.
  have hsame := (List.mergeSort_perm found fun a b => !decide (lt b a)).trans hperm
  refine hsame.eq_of_pairwise (fun a b ha hb hab hba => ?_) hfound
    (hsorted.imp fun h => hasymm _ _ h)
  -- The strict order has all members in a row, so of two different ones one is behind the other.
  by_contra hne
  rcases lt_or_lt_of_pairwise hsorted (hsame.mem_iff.1 ha) hb hne with h | h
  · exact hba h
  · exact hab h

/-- The members of a list in a strict order determine the list. Neither list repeats a member, so
each is an arrangement of the other, and asymmetry leaves one arrangement. -/
theorem eq_of_pairwise_of_mem_iff {α : Type} {lt : α → α → Prop} (hirrefl : ∀ a, ¬ lt a a)
    (hasymm : ∀ a b, lt a b → ¬ lt b a) {xs ys : List α} (hxs : xs.Pairwise lt)
    (hys : ys.Pairwise lt) (hmem : ∀ a, a ∈ xs ↔ a ∈ ys) : xs = ys := by
  have hperm := (List.perm_ext_iff_of_nodup (nodup_of_pairwise hirrefl hxs)
    (nodup_of_pairwise hirrefl hys)).2 hmem
  exact hperm.eq_of_pairwise (fun a b _ _ hab hba => absurd hba (hasymm a b hab)) hxs hys

/-- In a list in a strict order, what comes before in the order comes before in the list. The
induction goes down to the first of the two members. If the second one stood in front of it, the
order would hold both ways. -/
theorem pair_sublist_of_pairwise {α : Type} {lt : α → α → Prop} (hirrefl : ∀ a, ¬ lt a a)
    (hasymm : ∀ a b, lt a b → ¬ lt b a) {xs : List α} (hxs : xs.Pairwise lt) {a b : α}
    (ha : a ∈ xs) (hb : b ∈ xs) (hab : lt a b) : [a, b].Sublist xs := by
  induction xs with
  | nil => cases ha
  | cons x xs ih =>
    obtain ⟨hfirst, hrest⟩ := List.pairwise_cons.1 hxs
    rcases List.mem_cons.1 ha with rfl | ha'
    · rcases List.mem_cons.1 hb with rfl | hb'
      · exact absurd hab (hirrefl b)
      · exact (List.singleton_sublist.2 hb').cons_cons a
    · rcases List.mem_cons.1 hb with rfl | hb'
      · -- Nothing comes before the first member.
        exact absurd (hfirst a ha') (hasymm a b hab)
      · exact (ih hrest ha' hb').cons x

/-- Members in order that are ahead of all others are the front of the list. With the others behind
them in their old order they make a list in the same strict order, with the same members, and there
is only one such list. -/
theorem eq_take_of_pairwise {α : Type} {lt : α → α → Prop} (hirrefl : ∀ a, ¬ lt a a)
    (hasymm : ∀ a b, lt a b → ¬ lt b a) {xs front : List α} (hxs : xs.Pairwise lt)
    (hfront : front.Pairwise lt) (hmem : ∀ a ∈ front, a ∈ xs)
    (hahead : ∀ a ∈ xs, a ∉ front → ∀ b ∈ front, lt b a) : front = xs.take front.length := by
  classical
  have hjoined : (front ++ xs.filter (· ∉ front)).Pairwise lt := by
    refine List.pairwise_append.2 ⟨hfront, hxs.filter _, fun b hb a ha => ?_⟩
    obtain ⟨ha, hout⟩ := List.mem_filter.1 ha
    exact hahead a ha (of_decide_eq_true hout) b hb
  have hall : front ++ xs.filter (· ∉ front) = xs := by
    refine eq_of_pairwise_of_mem_iff hirrefl hasymm hjoined hxs fun a => ?_
    by_cases ha : a ∈ front <;> simp [ha, hmem]
  conv_rhs => rw [← hall]
  exact List.take_left.symm

/-- The members of a list without repetitions stand in the order of their places. So even a list
that is not in the order of its members is in a strict order, and the lemmas above apply to it. -/
theorem pairwise_idxOf {α : Type} [BEq α] [LawfulBEq α] {xs : List α} (h : xs.Nodup) :
    xs.Pairwise fun a b => xs.idxOf a < xs.idxOf b :=
  List.pairwise_iff_getElem.2 fun i j hi hj hij => by
    rwa [h.idxOf_getElem i hi, h.idxOf_getElem j hj]

/-- Sorting keeps the order of members between which it does not decide. This is the stability of
the sort, in the form in which the rankings need it: of two members in the sorted list the first one
is less, or they are level and it came first in the old order. -/
theorem pairwise_mergeSort_of_pairwise {α : Type} (le : α → α → Bool)
    (htrans : ∀ a b c, le a b = true → le b c = true → le a c = true)
    (htotal : ∀ a b, (le a b || le b a) = true) {before : α → α → Prop}
    (hirrefl : ∀ a, ¬ before a a) (hasymm : ∀ a b, before a b → ¬ before b a) {xs : List α}
    (hxs : xs.Pairwise before) :
    (xs.mergeSort le).Pairwise fun a b => le a b = true ∧ (le b a = true → before a b) := by
  classical
  have hnodup : (xs.mergeSort le).Nodup :=
    (List.mergeSort_perm xs le).nodup_iff.2 (nodup_of_pairwise hirrefl hxs)
  refine List.pairwise_iff_forall_sublist.2 fun {a b} hab => ?_
  have hsorted := List.pairwise_iff_forall_sublist.1 (List.pairwise_mergeSort htrans htotal xs) hab
  refine ⟨hsorted, fun hba => ?_⟩
  have ha : a ∈ xs := List.mem_mergeSort.1 (hab.subset (by simp))
  have hb : b ∈ xs := List.mem_mergeSort.1 (hab.subset (by simp))
  have hplaces {x y : α} (hpair : [x, y].Sublist (xs.mergeSort le)) :
      (xs.mergeSort le).idxOf x < (xs.mergeSort le).idxOf y :=
    List.pairwise_iff_forall_sublist.1 (pairwise_idxOf hnodup) hpair
  have hlt := hplaces hab
  have hne : a ≠ b := fun heq => absurd hlt (by rw [heq]; exact Nat.lt_irrefl _)
  -- If they stood the other way round before, sorting would have left them so.
  refine (lt_or_lt_of_pairwise hxs ha hb hne).resolve_right fun hbefore => ?_
  have hpair := pair_sublist_of_pairwise hirrefl hasymm hxs hb ha hbefore
  have hkept := List.pair_sublist_mergeSort htrans htotal hba hpair
  exact absurd (hplaces hkept) (Nat.lt_asymm hlt)

end ImportCensus

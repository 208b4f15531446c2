import Mathlib.Data.List.Nodup
import Mathlib.Data.List.Perm.Basic
import ImportCensus.Proofs.FileSystem.Walk

/-!
# `ImportCensus.Proofs.FileSystem.Order`: listings and walks in other orders

A walk takes the entries of a directory in the order of a listing. What it does at an entry depends
on where that entry leads to, and never on the listing. So listings in another order lead to the
same items in another order, and listings in the order of names lead to the very same items.

* `eq_of_sorted_of_perm`: entries with different names have one order by names only, so a sorted
  listing is determined by its entries.
* `walkStep_congr`: what a walk does at an entry, in two file systems.
* `walkFrom_perm`: the items of two walks, whatever orders their listings are in. The induction
  follows one walk, and at each entry both do the same.
-/

set_option autoImplicit false

namespace ImportCensus

namespace FileSystem

variable {fs other : FileSystem}

/-! ### Listings -/

/-- The entries of a sorted listing stand in the order of their names. Only this much is said that
no later name is smaller; that names differ is a matter of the table. -/
theorem pairwise_sorted_listing (fs : FileSystem) (dir : Location) :
    (fs.listing true dir).Pairwise fun a b => ¬ b.1 < a.1 := by
  have hsorted : (fs.listing true dir).Pairwise fun a b => !decide (b.1 < a.1) :=
    List.pairwise_mergeSort
      (fun a b c hab hbc => by
        simp only [Bool.not_eq_true', decide_eq_false_iff_not] at hab hbc ⊢
        exact fun hca => List.not_lt.2 (List.le_trans (List.not_lt.1 hab) (List.not_lt.1 hbc)) hca)
      (fun a b => by
        simp only [Bool.or_eq_true, Bool.not_eq_true', decide_eq_false_iff_not]
        exact Decidable.or_iff_not_imp_left.2 fun h => List.lt_asymm (Decidable.not_not.1 h))
      (fs.entries dir)
  exact hsorted.imp fun h => by simpa using h

/-- Entries with different names can be put into the order of their names in one way only. Two of
them between which the order does not decide have one name, and so they are one entry. -/
theorem eq_of_sorted_of_perm {first second : List (Name × Node)}
    (hdistinct : first.Pairwise fun a b => a.1 ≠ b.1)
    (hfirst : first.Pairwise fun a b => ¬ b.1 < a.1)
    (hsecond : second.Pairwise fun a b => ¬ b.1 < a.1) (hperm : first.Perm second) :
    first = second := by
  refine hperm.eq_of_pairwise (fun a b ha hb hab hba => ?_) hfirst hsecond
  -- Two entries of which neither is in front of the other have one name, so they are one entry.
  have hname : a.1 = b.1 := List.le_antisymm (List.not_lt.1 hab) (List.not_lt.1 hba)
  exact List.inj_on_of_nodup_map (List.pairwise_map.2 hdistinct) ha (hperm.mem_iff.2 hb) hname

/-- Listings of the same entries differ in their order only, whether either of them is sorted or
not. -/
theorem listing_perm (hentries : ∀ dir, (other.entries dir).Perm (fs.entries dir))
    (sorted sorted' : Bool) (dir : Location) :
    (other.listing sorted' dir).Perm (fs.listing sorted dir) := by
  have hlisting (fs : FileSystem) (sorted : Bool) :
      (fs.listing sorted dir).Perm (fs.entries dir) := by
    unfold listing
    split
    · exact List.mergeSort_perm _ _
    · exact .refl _
  exact (hlisting other sorted').trans ((hentries dir).trans (hlisting fs sorted).symm)

/-- A table in another order lists the same entries. -/
theorem entries_perm (h : other.nodes.Perm fs.nodes) (dir : Location) :
    (other.entries dir).Perm (fs.entries dir) := h.filterMap _

/-! ### Walks -/

/-- What a walk does at an entry depends on where a link leads to, and on the node there. Files and
directories stand in the entry itself. -/
theorem walkStep_congr {here : Stop} {above : List Stop} {name : Name} {node : Node}
    (hlink : ∀ target, node = .link target →
      other.locateTarget here.location target = fs.locateTarget here.location target)
    (hnode : ∀ target location, node = .link target →
      fs.locateTarget here.location target = .ok location →
      other.node? location = fs.node? location) :
    other.walkStep here above name node = fs.walkStep here above name node := by
  cases node with
  | file content => rfl
  | directory => rfl
  | link target =>
    have htarget := hlink target rfl
    cases hlocate : fs.locateTarget here.location target with
    | error cause =>
      simp only [walkStep, htarget, hlocate]
      cases cause <;> rfl
    | ok location =>
      simp only [walkStep, htarget, hlocate, contentAt, hnode target location rfl hlocate]

/-- **Walks through the same nodes meet the same items.** The order of a walk may be that of the
host or that of the names. The induction follows the first walk. Its entries are those of the other
one in another order, and at each of them both walks take the same step. -/
theorem walkFrom_perm (hsame : ∀ location, other.node? location = fs.node? location)
    (hentries : ∀ dir, (other.entries dir).Perm (fs.entries dir)) (sorted sorted' : Bool)
    (here : Stop) (above : List Stop) :
    (fs.walkFrom sorted here above).Perm (other.walkFrom sorted' here above) := by
  induction here, above using walkFrom.induct fs sorted with
  | case1 here above ih =>
    rw [walkFrom_eq_flatMap, walkFrom_eq_flatMap]
    refine List.Perm.flatMap (listing_perm hentries sorted sorted' here.location).symm ?_
    rintro ⟨name, node⟩ hmem
    -- What a walk does at an entry does not depend on the order of the table.
    have hstep : other.walkStep here above name node = fs.walkStep here above name node :=
      walkStep_congr (fun target _ => locateTarget_congr hsame here.location target)
        fun _ location _ _ => hsame location
    unfold entryItems
    dsimp only
    rw [hstep]
    cases hnext : fs.walkStep here above name node with
    | emit item => exact .refl _
    | enter next => exact (ih name node hmem next hnext).cons _

end FileSystem

end ImportCensus

import Mathlib
import ImportCensus.Proofs.Census.Items
import ImportCensus.Proofs.Census.Units
import ImportCensus.Proofs.FileSystem.Order

/-!
# `ImportCensus.Proofs.Census.Irrelevant`: what a census does not depend on

Some entries of a tree add nothing to a census: files that hold no unit, units that are not UTF-8,
links without a target, and directories with nothing else in them. `Irrelevant` says which.

Two file systems share some locations (`Shares`) if the same stands at these, if links there lead to
shared locations again, and if the other entries of shared directories are irrelevant. A census of
the one is then a census of the other.

* `Irrelevant.filter_entryItems`: at an irrelevant entry a walk meets no item that counts.
* `Shares.filter_walkFrom`: so walks through shared directories meet the same items that count. The
  induction follows one walk, and at a shared entry both do the same.
* `census_eq_of_sameTree`: the census of two trees.
-/

set_option autoImplicit false

namespace ImportCensus

namespace FileSystem

variable {fs other : FileSystem} {sorted : Bool} {root : Text}

/-! ### Entries that are irrelevant -/

/-- An entry of the directory `dir` that adds nothing to a census and cannot keep it from its
end. -/
inductive Irrelevant (fs : FileSystem) : Location → Name → Node → Prop
  /-- A file that holds no unit. It is not even read. -/
  | otherFile {dir location : Location} {name : Name} {node : Node} {content : Content} :
      fs.destination dir name node = .ok location → fs.node? location = some (.file content) →
      CompilationUnit.isFileName name = false → Irrelevant fs dir name node
  /-- A file that is not UTF-8, wherever the bytes go wrong. -/
  | undecodable {dir location : Location} {name : Name} {node : Node} {bytes : ByteArray} :
      fs.destination dir name node = .ok location → fs.node? location = some (.file (.ok bytes)) →
      Text.decode? bytes = none → Irrelevant fs dir name node
  /-- A link whose target is missing. -/
  | dangling {dir : Location} {name : Name} {target : Text} :
      fs.locateTarget dir target = .error .notFound → Irrelevant fs dir name (.link target)
  /-- A directory with nothing else in it. -/
  | directory {dir : Location} {name : Name} :
      (∀ entry ∈ fs.entries (name :: dir), Irrelevant fs (name :: dir) entry.1 entry.2) →
      Irrelevant fs dir name .directory

/-- At an irrelevant entry a walk meets no item that counts. A directory is entered, and the
induction says the same of each of its entries. How the walk came there does not matter: what it
compares with the directories above are links to directories, and no such link is irrelevant. -/
theorem Irrelevant.filter_entryItems {dir : Location} {name : Name} {node : Node}
    (h : Irrelevant fs dir name node) (sorted : Bool) {here : Stop} (hhere : here.location = dir)
    (above : List Stop) (hmem : (name, node) ∈ fs.entries dir) :
    (fs.entryItems sorted here above (name, node)).filter WalkItem.counts = [] := by
  induction h generalizing here above with
  | otherFile hdest hfile hname =>
    subst hhere
    have hstep := (meets_walkStep above hmem).unique (.file hdest hfile)
    simp [entryItems, hstep, WalkItem.counts, hname]
  | undecodable hdest hfile hdecode =>
    subst hhere
    have hstep := (meets_walkStep above hmem).unique (.file hdest hfile)
    simp [entryItems, hstep, WalkItem.counts, SourceFile.counts, SourceFile.fault?,
      SourceFile.source?, hdecode]
  | dangling htarget =>
    subst hhere
    have hstep := (meets_walkStep above hmem).unique (.dangling htarget)
    simp [entryItems, hstep, WalkItem.counts]
  | @directory dir name hentries ih =>
    subst hhere
    -- The directory is entered whatever is above it, since no link leads to it here.
    show ((WalkItem.directory _ :: fs.walkFrom sorted _ _).filter WalkItem.counts) = []
    rw [List.filter_cons_of_neg (by simp [WalkItem.counts]), walkFrom_eq_flatMap,
      List.filter_flatMap, List.flatMap_eq_nil_iff]
    intro entry hentry
    exact ih entry (mem_listing.1 hentry) rfl _ (mem_listing.1 hentry)

/-! ### File systems that share a tree -/

/-- What two file systems have in common at the shared locations. -/
structure Shares (fs other : FileSystem) (shared : Location → Bool) : Prop where
  node?_eq : ∀ location, shared location → other.node? location = fs.node? location
  /-- A shared link leads to the same shared location, or astray in the same way. -/
  locateTarget_eq : ∀ dir name target, shared dir → shared (name :: dir) →
    (name, .link target) ∈ fs.entries dir →
    other.locateTarget dir target = fs.locateTarget dir target
  shared_target : ∀ dir name target location, shared dir → shared (name :: dir) →
    (name, .link target) ∈ fs.entries dir → fs.locateTarget dir target = .ok location →
    shared location
  /-- All other entries of shared directories are irrelevant, on both sides. -/
  irrelevant : ∀ dir name node, shared dir → shared (name :: dir) = false →
    (name, node) ∈ fs.entries dir → Irrelevant fs dir name node
  irrelevant_other : ∀ dir name node, shared dir → shared (name :: dir) = false →
    (name, node) ∈ other.entries dir → Irrelevant other dir name node

section

variable {shared : Location → Bool}

/-- At a shared entry both walks do the same, and what is entered is shared again. The step of a
walk looks at the target of a link and at what stands there, and both are shared. -/
theorem Shares.walkStep_eq (h : Shares fs other shared) {here : Stop} (hhere : shared here.location)
    (above : List Stop) {name : Name} {node : Node} (hshared : shared (name :: here.location))
    (hmem : (name, node) ∈ fs.entries here.location) :
    other.walkStep here above name node = fs.walkStep here above name node ∧
      ∀ next, fs.walkStep here above name node = .enter next → shared next.location := by
  constructor
  · -- The step at a link asks where the target is and what stands there.
    refine walkStep_congr ?_ ?_
    · rintro target rfl
      exact h.locateTarget_eq _ _ _ hhere hshared hmem
    · rintro target location rfl hlocate
      exact h.node?_eq _ (h.shared_target _ _ _ _ hhere hshared hmem hlocate)
  · intro next hstep
    -- The directory that is entered is the entry itself, or the target of a link.
    have hmeets := meets_walkStep above hmem
    rw [hstep] at hmeets
    cases hmeets with
    | directory hdest _ _ =>
      cases node with
      | link target => exact h.shared_target _ _ _ _ hhere hshared hmem hdest
      | _ =>
        cases hdest
        exact hshared

/-- Only shared entries of a shared directory give items that count. This is said of one file
system, so that it can be used for each of the two. -/
theorem filter_walkFrom_eq_flatMap {here : Stop} (hhere : shared here.location) (sorted : Bool)
    (above : List Stop)
    (hirrelevant : ∀ dir name node, shared dir → shared (name :: dir) = false →
      (name, node) ∈ fs.entries dir → Irrelevant fs dir name node) :
    (fs.walkFrom sorted here above).filter WalkItem.counts =
      ((fs.listing sorted here.location).filter fun entry =>
        shared (entry.1 :: here.location)).flatMap fun entry =>
          (fs.entryItems sorted here above entry).filter WalkItem.counts := by
  rw [walkFrom_eq_flatMap, List.filter_flatMap]
  refine (flatMap_filter_of_nil fun entry hentry hunshared => ?_).symm
  have hmem := mem_listing.1 hentry
  exact (hirrelevant _ _ _ hhere hunshared hmem).filter_entryItems sorted rfl above hmem

/-- **Walks through shared directories meet the same items that count.** The induction follows the
first walk. Entries that are not shared have dropped out, those that are left are listed in the same
order, and a directory that is entered is shared, so the induction hypothesis applies to it. -/
theorem Shares.filter_walkFrom (h : Shares fs other shared)
    (hlisting : ∀ dir, shared dir →
      (other.listing sorted dir).filter (fun entry => shared (entry.1 :: dir)) =
        (fs.listing sorted dir).filter fun entry => shared (entry.1 :: dir))
    (here : Stop) (above : List Stop) (hhere : shared here.location) :
    (other.walkFrom sorted here above).filter WalkItem.counts =
      (fs.walkFrom sorted here above).filter WalkItem.counts := by
  induction here, above using walkFrom.induct fs sorted with
  | case1 here above ih =>
    -- On both sides only the shared entries are left, and these are the same.
    rw [filter_walkFrom_eq_flatMap hhere sorted above h.irrelevant_other,
      filter_walkFrom_eq_flatMap hhere sorted above h.irrelevant, hlisting _ hhere]
    refine List.flatMap_congr ?_
    rintro ⟨name, node⟩ hentry
    obtain ⟨hmem, hshared⟩ := List.mem_filter.1 hentry
    obtain ⟨hstep, hnext⟩ := h.walkStep_eq hhere above hshared (mem_listing.1 hmem)
    unfold entryItems
    dsimp only
    rw [hstep]
    cases henter : fs.walkStep here above name node with
    | emit item => rfl
    | enter next =>
      dsimp only
      rw [List.filter_cons, List.filter_cons, ih name node hmem next henter (hnext next henter)]

/-- The walks below a shared root meet the same items that count. The root leads to the same
location in both, and the directory there is shared. -/
theorem Shares.meetSame (h : Shares fs other shared)
    (hlisting : ∀ dir, shared dir →
      (other.listing sorted dir).filter (fun entry => shared (entry.1 :: dir)) =
        (fs.listing sorted dir).filter fun entry => shared (entry.1 :: dir))
    (hlocate : other.locate root = fs.locate root)
    (hroot : ∀ location, fs.locate root = .ok location → shared location) :
    MeetSame fs other sorted root where
  checkRoot_eq := by
    unfold checkRoot
    rw [hlocate]
    cases hlocation : fs.locate root with
    | error cause => cases cause <;> rfl
    | ok location =>
      dsimp only
      rw [h.node?_eq location (hroot location hlocation)]
  filter_walk stop hstop := by
    obtain ⟨location, hlocation, -, rfl⟩ := checkRoot_eq_ok_iff.1 hstop
    unfold walk
    rw [List.filter_cons, List.filter_cons,
      h.filter_walkFrom hlisting _ [] (hroot location hlocation)]

/-- If entries are listed in the same order, they also stand in the same order when sorted. The
entries of a directory have different names, so there is only one sorted order of them. -/
theorem filter_listing_eq {dir : Location} {p : Name × Node → Bool}
    (h : (other.entries dir).filter p = (fs.entries dir).filter p) (sorted : Bool) :
    (other.listing sorted dir).filter p = (fs.listing sorted dir).filter p := by
  cases sorted with
  | false => exact h
  | true =>
    have hperm (fs : FileSystem) :
        ((fs.listing true dir).filter p).Perm ((fs.entries dir).filter p) :=
      (List.mergeSort_perm _ _).filter p
    refine eq_of_sorted_of_perm ((pairwise_listing other true dir).filter p)
      ((pairwise_sorted_listing other dir).filter p) ((pairwise_sorted_listing fs dir).filter p) ?_
    exact (hperm other).trans (h ▸ (hperm fs).symm)

/-- Two trees below a root that differ in irrelevant entries only. What is shared is listed in the
same order. -/
structure SameTree (fs other : FileSystem) (root : Text) (shared : Location → Bool) : Prop
    extends Shares fs other shared where
  locate_eq : other.locate root = fs.locate root
  shared_root : ∀ location, fs.locate root = .ok location → shared location
  order_eq : ∀ dir, shared dir →
    (other.entries dir).filter (fun entry => shared (entry.1 :: dir)) =
      (fs.entries dir).filter fun entry => shared (entry.1 :: dir)

/-- Trees that differ in irrelevant entries only meet the same items that count, with sorted
listings and with others. -/
theorem SameTree.meetSame (h : SameTree fs other root shared) (sorted : Bool) :
    MeetSame fs other sorted root :=
  h.toShares.meetSame (fun dir hdir => filter_listing_eq (h.order_eq dir hdir) sorted) h.locate_eq
    h.shared_root

end

/-- **Irrelevant entries do not influence a census.** If two source trees and two target trees
differ in such entries only, the census has the same classes and the same usages in the same order,
or the same fault. This holds in either mode, and for either order of the walk. -/
theorem census_eq_of_sameTree {source target : Text} {inSource inTarget : Location → Bool}
    (hsource : SameTree fs other source inSource) (htarget : SameTree fs other target inTarget)
    (options : CensusOptions) :
    (other.census options source target).result = (fs.census options source target).result :=
  census_eq_of_meetSame (hsource.meetSame options.sorted) (htarget.meetSame options.sorted)

/-- A tree with a unit that declares a class, a unit that uses it, and one that is not UTF-8. -/
def sampleTree : FileSystem where
  nodes :=
    [(["A.java".toList], .file (.ok (Text.encode "package p;".toList))),
      (["X.java".toList], .file (.ok (.mk #[0xff]))),
      (["E.java".toList], .file (.ok (Text.encode "import p.A;".toList)))]
  workingDirectory := some []
  distinct := by decide
  named := by decide
  storable := by decide
  standing := by simp
  rooted := by
    intro name dir h
    simp at h
    rcases h with h | h | h <;> exact .inl h.2

/-- The same tree with other bytes that are not UTF-8, behind an import, and with a link that
dangles and a directory that holds no unit. -/
def editedTree : FileSystem where
  nodes :=
    [(["X.java".toList], .file (.ok (Text.encode "import p.A;".toList |>.push 0xff))),
      (["A.java".toList], .file (.ok (Text.encode "package p;".toList))),
      (["k.java".toList], .link "m".toList),
      (["d".toList], .directory),
      (["n".toList, "d".toList], .file (.error .permissionDenied)),
      (["E.java".toList], .file (.ok (Text.encode "import p.A;".toList)))]
  workingDirectory := some []
  distinct := by decide
  named := by decide
  storable := by decide
  standing := by simp
  rooted := by
    intro name dir h
    simp at h
    rcases h with h | h | h | h | ⟨-, rfl⟩ | h
    all_goals first | exact .inl h.2 | exact .inr (by simp)

/-- The locations that the two trees share. -/
def sampleShared (location : Location) : Bool :=
  [[], ["A.java".toList], ["E.java".toList]].contains location

/-- The shared locations, one by one. -/
theorem sampleShared_iff {location : Location} :
    sampleShared location ↔
      location = [] ∨ location = ["A.java".toList] ∨ location = ["E.java".toList] := by
  simp [sampleShared]

/-- The four entries that the trees do not share are irrelevant, each by a rule of its own: bytes
that are not UTF-8, a link without a target, a directory, and a file in it that holds no unit. -/
theorem irrelevant_editedTree {dir : Location} {name : Name} {node : Node} (hdir : sampleShared dir)
    (hshared : sampleShared (name :: dir) = false) (hmem : (name, node) ∈ editedTree.entries dir) :
    Irrelevant editedTree dir name node := by
  have hnode := mem_entries.1 hmem
  simp only [editedTree, List.mem_cons, Prod.mk.injEq, List.cons.injEq, List.not_mem_nil,
    or_false] at hnode
  -- Six entries are in the table, and three of them are in a shared directory without being shared.
  rcases hnode with ⟨⟨rfl, rfl⟩, rfl⟩ | ⟨⟨rfl, rfl⟩, rfl⟩ | ⟨⟨rfl, rfl⟩, rfl⟩ | ⟨⟨rfl, rfl⟩, rfl⟩ |
    ⟨⟨rfl, rfl⟩, rfl⟩ | ⟨⟨rfl, rfl⟩, rfl⟩
  · exact .undecodable rfl rfl (by cbv)
  · cases hshared
  · exact .dangling (by cbv)
  · refine .directory fun entry hentry => ?_
    obtain rfl : entry = ("n".toList, .file (.error .permissionDenied)) := by
      simpa [editedTree, entries] using hentry
    exact .otherFile rfl rfl rfl
  · cases hdir
  · cases hshared

/-- The two trees differ in irrelevant entries only. The shared locations are the top and two units,
and there are no links among them. -/
theorem sameTree_sample : SameTree sampleTree editedTree ['/'] sampleShared where
  node?_eq := by
    intro location h
    rcases sampleShared_iff.1 h with rfl | rfl | rfl <;> cbv
  locateTarget_eq := by
    intro dir name target hdir hshared hmem
    simp [mem_entries, sampleTree] at hmem
  shared_target := by
    intro dir name target location hdir hshared hmem
    simp [mem_entries, sampleTree] at hmem
  irrelevant := by
    intro dir name node hdir hshared hmem
    have hnode := mem_entries.1 hmem
    simp only [sampleTree, List.mem_cons, Prod.mk.injEq, List.cons.injEq, List.not_mem_nil,
      or_false] at hnode
    -- One entry of the table is not shared, a file that is no text.
    rcases hnode with ⟨⟨rfl, rfl⟩, rfl⟩ | ⟨⟨rfl, rfl⟩, rfl⟩ | ⟨⟨rfl, rfl⟩, rfl⟩
    · cases hshared
    · exact .undecodable rfl rfl (by cbv)
    · cases hshared
  irrelevant_other _ _ _ := irrelevant_editedTree
  locate_eq := by cbv
  shared_root := by
    intro location h
    have hroot : sampleTree.locate ['/'] = .ok [] := by cbv
    cases hroot.symm.trans h
    rfl
  order_eq := by
    intro dir h
    rcases sampleShared_iff.1 h with rfl | rfl | rfl <;> cbv

/-- So the edited tree has the census of the other one, which is evaluated: one class, used once. -/
theorem census_editedTree :
    (editedTree.census ⟨false, true⟩ ['/'] ['/']).result.map (fun census =>
        (census.classes.names, census.usages.entries)) =
      .ok (["p.A".toList], [⟨"p.A".toList, [".E".toList]⟩]) := by
  rw [census_eq_of_sameTree sameTree_sample sameTree_sample]
  cbv

end FileSystem

end ImportCensus

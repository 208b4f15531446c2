import Mathlib.Data.List.Basic
import ImportCensus.FileSystem.Reach
import ImportCensus.FileSystem.Walk
import ImportCensus.Proofs.FileSystem.Path

/-!
# `ImportCensus.Proofs.FileSystem.Reach`: chains and the paths along them

A chain is determined by its names, and its names by the path that leads along them, since no name
has a slash in it. So a path leads along one chain at most.

* `chainPath_eq_append`: the path along a chain goes on from its root with the names, one slash
  between two of them.
* `chainPath_injective`, `Chain.unique`: names and directories of a chain are those of its path.
* `EndsInFile.congr`: chains depend on what stands at the locations, and not on the order in which
  directories are listed.
-/

set_option autoImplicit false

namespace ImportCensus

namespace FileSystem

variable {fs : FileSystem}

/-! ### Entries -/

/-- An entry of a directory is what stands one name below it. So a name has one entry, and the order
of the listing plays no role. -/
theorem node?_of_mem_entries {dir : Location} {name : Name} {node : Node} :
    (name, node) ∈ fs.entries dir ↔ fs.node? (name :: dir) = some node := by
  rw [mem_entries, node?_eq_some_iff]

/-- Names of entries are proper, by the invariant `named` of the table. -/
theorem isName_of_mem_entries {dir : Location} {name : Name} {node : Node}
    (h : (name, node) ∈ fs.entries dir) : isName name = true :=
  fs.named _ (List.mem_map_of_mem (mem_entries.1 h)) name List.mem_cons_self

/-- No proper name has a slash in it, so names can be told apart in a path. -/
theorem slash_not_mem_of_isName {name : Name} (h : isName name = true) : '/' ∉ name := by
  simp_all [isName]

/-! ### Paths -/

/-- The paths below a base all begin in the same way: with the base and, if it is needed, a slash.
So what is said of paths below a base is said of what comes behind that beginning. -/
theorem join_eq_append (base : Text) (name : Name) :
    Path.join base name = Path.join base [] ++ name := by
  unfold Path.join
  split <;> simp

/-- Below a path that ends in a proper name paths go on with a slash. Only a root can end with a
slash of its own, and then none is added. -/
theorem join_join_nil (base : Text) {name : Name} (h : isName name = true) :
    Path.join (Path.join base name) [] = Path.join base name ++ ['/'] := by
  have hne : name ≠ [] := by
    rintro rfl
    exact absurd h (by decide)
  rw [join_eq_append base name]
  have hlast : (Path.join base [] ++ name).getLast? = name.getLast? := by
    rw [List.getLast?_append_of_ne_nil _ hne]
  have hnot : name.getLast? ≠ some '/' :=
    fun hlast => slash_not_mem_of_isName h (List.mem_of_getLast? hlast)
  rw [Path.join, if_neg]
  simp [hne, hlast, hnot]

/-- Names without slashes that are followed by the end or by a slash can be told from the whole:
they are what stands in front of the first slash. -/
theorem name_eq_of_append_eq {a b : Name} {s t : Text} (ha : '/' ∉ a) (hb : '/' ∉ b)
    (hs : s.head?.all (· == '/')) (ht : t.head?.all (· == '/')) (h : a ++ s = b ++ t) : a = b := by
  have htake {name : Name} {tail : Text} (hname : '/' ∉ name) (htail : tail.head?.all (· == '/')) :
      (name ++ tail).takeWhile (· != '/') = name := by
    rw [List.takeWhile_append_of_pos fun c hc => by
      have hne : c ≠ '/' := fun e => hname (e ▸ hc)
      simpa using hne]
    cases tail with
    | nil => simp
    | cons c tail => simp_all
  rw [← htake ha hs, h, htake hb ht]

/-- One more name on a chain is joined to the path along the chain. -/
theorem chainPath_cons (root : Text) (name : Name) (names : List Name) :
    chainPath root (name :: names) = Path.join (chainPath root names) name := by
  simp [chainPath]

/-- The path along a chain is its root and the names, each with a slash in front of it, but for the
slash that the root may end with. That one slash is the reason why the statement adds one on the
left. -/
theorem chainPath_eq_append (root : Text) {name : Name} {names : List Name}
    (hnames : ∀ n ∈ name :: names, isName n = true) :
    ∃ rest, '/' :: rest = (name :: names).reverse.flatMap ('/' :: ·) ∧
      chainPath root (name :: names) = Path.join root [] ++ rest := by
  induction names generalizing name with
  | nil => exact ⟨name, by simp, by rw [chainPath_cons, join_eq_append]; rfl⟩
  | cons next names ih =>
    obtain ⟨hname, hrest⟩ := List.forall_mem_cons.1 hnames
    obtain ⟨rest, hflat, hpath⟩ := ih hrest
    refine ⟨rest ++ '/' :: name, ?_, ?_⟩
    · rw [List.reverse_cons, List.flatMap_append, ← hflat]
      simp
    · -- The path so far ends in a proper name, so the next one goes behind a slash.
      rw [chainPath_cons, join_eq_append, chainPath_cons,
        join_join_nil _ (List.forall_mem_cons.1 hrest).1, ← chainPath_cons, hpath]
      simp

/-- Names behind slashes can be told from one another. The induction takes the first name off both
lists. -/
theorem flatMap_slash_injective {names names' : List Name} (h : ∀ n ∈ names, isName n = true)
    (h' : ∀ n ∈ names', isName n = true)
    (hsame : names.flatMap ('/' :: ·) = names'.flatMap ('/' :: ·)) : names = names' := by
  induction names generalizing names' with
  | nil =>
    cases names' with
    | nil => rfl
    | cons name' names' => simp at hsame
  | cons name names ih =>
    cases names' with
    | nil => simp at hsame
    | cons name' names' =>
      obtain ⟨hname, hnames⟩ := List.forall_mem_cons.1 h
      obtain ⟨hname', hnames'⟩ := List.forall_mem_cons.1 h'
      -- Behind a name the text ends or goes on with a slash, so the first names agree.
      have htail (l : List Name) : (l.flatMap ('/' :: ·)).head?.all (· == '/') := by
        cases l <;> rfl
      simp only [List.flatMap_cons, List.cons_append, List.cons.injEq, true_and] at hsame
      have hfirst := name_eq_of_append_eq (slash_not_mem_of_isName hname)
        (slash_not_mem_of_isName hname') (htail names) (htail names') hsame
      subst hfirst
      rw [ih hnames hnames' (List.append_cancel_left hsame)]

/-- A path leads along one list of names at most. The root is taken off both paths, and what is left
are names behind slashes. -/
theorem chainPath_injective {root : Text} {name name' : Name} {names names' : List Name}
    (h : ∀ n ∈ name :: names, isName n = true) (h' : ∀ n ∈ name' :: names', isName n = true)
    (hsame : chainPath root (name :: names) = chainPath root (name' :: names')) :
    name :: names = name' :: names' := by
  obtain ⟨rest, hrest, hpath⟩ := chainPath_eq_append root h
  obtain ⟨rest', hrest', hpath'⟩ := chainPath_eq_append root h'
  rw [hpath, hpath'] at hsame
  have hflat := congrArg ('/' :: ·) (List.append_cancel_left hsame)
  rw [hrest, hrest'] at hflat
  exact List.reverse_injective (flatMap_slash_injective
    (fun n hn => h n (List.mem_reverse.1 hn)) (fun n hn => h' n (List.mem_reverse.1 hn)) hflat)

/-! ### Chains -/

/-- The names of a chain are proper, since each of them is the name of an entry. -/
theorem Chain.isName {root : Location} {names : List Name} {dirs : List Location}
    (h : Chain fs root names dirs) : ∀ n ∈ names, isName n = true := by
  induction h with
  | root => exact fun n hn => nomatch hn
  | step _ hmem _ _ ih => exact List.forall_mem_cons.2 ⟨isName_of_mem_entries hmem, ih⟩

/-- The names of a chain determine the directories. In each directory the name has one entry, and
the entry leads to one location. -/
theorem Chain.unique {root : Location} {names : List Name} {dirs dirs' : List Location}
    (h : Chain fs root names dirs) (h' : Chain fs root names dirs') : dirs = dirs' := by
  induction h generalizing dirs' with
  | root =>
    cases h'
    rfl
  | step _ hmem hdest _ ih =>
    cases h' with
    | step hchain hmem' hdest' =>
      cases ih hchain
      cases (node?_of_mem_entries.1 hmem).symm.trans (node?_of_mem_entries.1 hmem')
      cases hdest.symm.trans hdest'
      rfl

/-! ### The same nodes in another order -/

section

variable {other : FileSystem} (hsame : ∀ location, other.node? location = fs.node? location)

include hsame

/-- The entries of a directory depend on what stands at the locations, and only their order on the
table. -/
theorem mem_entries_congr {dir : Location} {entry : Name × Node} :
    entry ∈ other.entries dir ↔ entry ∈ fs.entries dir := by
  rw [node?_of_mem_entries, node?_of_mem_entries, hsame]

/-- Where links and other entries lead depends on what stands at the locations. -/
theorem locateTarget_congr (dir : Location) (target : Text) :
    other.locateTarget dir target = fs.locateTarget dir target := by
  simp only [locateTarget, follow_congr hsame]

/-- The same holds of any entry, since files and directories lead to where they stand. -/
theorem destination_congr (dir : Location) (name : Name) (node : Node) :
    other.destination dir name node = fs.destination dir name node := by
  cases node with
  | link target => exact locateTarget_congr hsame dir target
  | file content => rfl
  | directory => rfl

variable {root : Location} {names : List Name}

/-- Chains lead from one file system into another with the same nodes. -/
theorem Chain.congr {dirs : List Location} (h : Chain fs root names dirs) :
    Chain other root names dirs := by
  induction h with
  | root => exact .root
  | step _ hmem hdest hdir ih =>
    exact .step ih ((mem_entries_congr hsame).2 hmem) (by rwa [destination_congr hsame])
      (by rwa [hsame])

/-- So do the files at their ends, with the same contents. -/
theorem EndsInFile.congr {name : Name} {content : Content}
    (h : EndsInFile fs root names name content) : EndsInFile other root names name content := by
  obtain ⟨dir, above, node, location, hchain, hmem, hdest, hfile⟩ := h
  exact ⟨dir, above, node, location, hchain.congr hsame, (mem_entries_congr hsame).2 hmem,
    by rwa [destination_congr hsame], by rwa [hsame]⟩

/-- And a link that breaks one chain breaks the other, for the same reason. -/
theorem Breaks.congr {dir : Location} {above : List Location} {target : Text}
    (h : Breaks fs dir above target) : Breaks other dir above target := by
  cases h with
  | loop hlocate hdir hback =>
    exact .loop (by rwa [locateTarget_congr hsame]) (by rwa [hsame]) hback
  | unreachable hlocate hcause =>
    exact .unreachable (by rwa [locateTarget_congr hsame]) hcause

end

end FileSystem

end ImportCensus

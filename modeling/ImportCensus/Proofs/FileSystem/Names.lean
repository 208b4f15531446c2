import ImportCensus.Proofs.FileSystem.Reach
import ImportCensus.Proofs.Text.Bytes
import ImportCensus.Proofs.Text.Segments

/-!
# `ImportCensus.Proofs.FileSystem.Names`: paths by their names below a root

A path below a root goes on from the root with names. `Path.namesBelow` reads them off the path, and
`Path.IsBefore` compares paths by them: name by name, and each name by its bytes. That is not the
order of the paths as texts, in which the slash behind a name takes part.

* `namesBelow_chainPath`: the names of a path along a chain are those of the chain.
* `isBefore_iff`: paths compare like their names.
* `isBefore_of_sibling`: where the two orders differ.
-/

set_option autoImplicit false

namespace ImportCensus

namespace Path

/-- The names with which a path goes on below a base, the outermost one first. -/
def namesBelow (base path : Text) : List Name :=
  Text.segments '/' (path.drop (join base []).length)

/-- A path comes before another one below a base: their names are compared one by one, and names by
their bytes. -/
def IsBefore (base path other : Text) : Prop :=
  (namesBelow base path).map Text.bytes < (namesBelow base other).map Text.bytes

instance (base : Text) : DecidableRel (IsBefore base) := fun path other =>
  inferInstanceAs (Decidable
    ((namesBelow base path).map Text.bytes < (namesBelow base other).map Text.bytes))

/-- Paths compare like their names. Hosts compare names by bytes, and by `bytes_lt_bytes_iff` these
compare like the texts. -/
theorem isBefore_iff {base path other : Text} :
    IsBefore base path other ↔ namesBelow base path < namesBelow base other :=
  Text.map_bytes_lt_map_bytes_iff

/-- No path comes before itself. -/
theorem IsBefore.irrefl {base : Text} (path : Text) : ¬ IsBefore base path path :=
  List.lt_irrefl _

/-- Of two paths one at most comes before the other. -/
theorem IsBefore.asymm {base path other : Text} (h : IsBefore base path other) :
    ¬ IsBefore base other path :=
  List.lt_asymm h

/-- Not to come before is a transitive relation. This is what sorting needs. -/
theorem not_isBefore_trans {base path other next : Text} (h : ¬ IsBefore base other path)
    (hnext : ¬ IsBefore base next other) : ¬ IsBefore base next path :=
  List.le_trans h hnext

end Path

namespace FileSystem

/-! ### The names of a path -/

/-- The names of a path below a base are the segments of what is behind the base. -/
theorem namesBelow_append (base t : Text) :
    Path.namesBelow base (Path.join base [] ++ t) = Text.segments '/' t := by
  rw [Path.namesBelow, List.drop_left]

/-- The path of an entry has one name below its directory. The name has no slash in it, so it is one
segment. -/
theorem namesBelow_join (base : Text) {name : Name} (h : isName name = true) :
    Path.namesBelow base (Path.join base name) = [name] := by
  rw [join_eq_append, namesBelow_append, Text.segments_of_not_mem (slash_not_mem_of_isName h)]

/-- A path below an entry has the name of the entry in front of those below it. So paths below
different entries are compared by the names of the entries. -/
theorem namesBelow_eq_cons {base path : Text} {name : Name} (h : isName name = true)
    (hpath : Path.join (Path.join base name) [] <+: path) :
    Path.namesBelow base path = name :: Path.namesBelow (Path.join base name) path := by
  obtain ⟨t, rfl⟩ := hpath
  rw [namesBelow_append, join_join_nil base h, join_eq_append, List.append_assoc, List.append_assoc,
    namesBelow_append, List.singleton_append,
    Text.segments_append_cons (slash_not_mem_of_isName h)]

/-- Names behind slashes are the segments behind the first slash. In front of it stands an empty
one. -/
theorem segments_flatMap_slash {names : List Name} (h : ∀ n ∈ names, isName n = true) :
    Text.segments '/' (names.flatMap ('/' :: ·)) = [] :: names := by
  induction names with
  | nil => rfl
  | cons name names ih =>
    obtain ⟨hname, hnames⟩ := List.forall_mem_cons.1 h
    have hslash := slash_not_mem_of_isName hname
    have hrest : Text.segments '/' (name ++ names.flatMap ('/' :: ·)) = name :: names := by
      cases names with
      | nil => rw [List.flatMap_nil, List.append_nil, Text.segments_of_not_mem hslash]
      | cons next names =>
        -- What follows the name begins with a slash, so the name is a segment.
        have hsplit := ih hnames
        rw [List.flatMap_cons, List.cons_append] at hsplit ⊢
        rw [Text.segments_append_cons hslash]
        rw [Text.segments_cons, if_pos (by rfl)] at hsplit
        rw [(List.cons.inj hsplit).2]
    rw [List.flatMap_cons, List.cons_append, Text.segments_cons, if_pos (by rfl), hrest]

/-- A path is put together from a root and its names below it. -/
def GoesOn (root path : Text) : Prop :=
  ∃ t, path = Path.join root [] ++ t ∧ '/' :: t = (Path.namesBelow root path).flatMap ('/' :: ·)

/-- A path along a chain goes on from its root with the names of the chain. The chain has its last
name first, and a path its first one. -/
theorem namesBelow_chainPath (root : Text) {name : Name} {names : List Name}
    (h : ∀ n ∈ name :: names, isName n = true) :
    Path.namesBelow root (chainPath root (name :: names)) = (name :: names).reverse ∧
      GoesOn root (chainPath root (name :: names)) := by
  obtain ⟨t, hflat, hpath⟩ := chainPath_eq_append root h
  have hsplit := segments_flatMap_slash fun n hn => h n (List.mem_reverse.1 hn)
  rw [← hflat, Text.segments_cons, if_pos (by rfl)] at hsplit
  have hnames : Path.namesBelow root (chainPath root (name :: names)) =
      (name :: names).reverse := by
    rw [hpath, namesBelow_append, (List.cons.inj hsplit).2]
  exact ⟨hnames, t, hpath, by rw [hnames, hflat]⟩

/-! ### Two orders -/

/-- What lies in a directory comes before a sibling whose name goes on with a dot behind that of the
directory. As texts they compare the other way, since a dot comes before a slash. -/
theorem isBefore_of_sibling {root path other : Text} (hpath : GoesOn root path)
    (hother : GoesOn root other) {front below : List Name} {dir next : Name} {suffix : Text}
    (hnames : Path.namesBelow root path = front ++ dir :: next :: below)
    (hnames' : Path.namesBelow root other = front ++ [dir ++ '.' :: suffix]) :
    Path.IsBefore root path other ∧ other.bytes < path.bytes := by
  obtain ⟨s, hs, hsNames⟩ := hpath
  obtain ⟨t, ht, htNames⟩ := hother
  constructor
  · -- By names: the name of the directory is the beginning of that of the file.
    rw [Path.isBefore_iff, hnames, hnames']
    refine List.append_left_lt (List.cons_lt_cons_iff.2 (.inl ?_))
    have hlonger : dir ++ [] < dir ++ '.' :: suffix := List.append_left_lt (List.nil_lt_cons _ _)
    rwa [List.append_nil] at hlonger
  · -- By bytes: a dot comes before a slash, and there the two paths differ first.
    have hflat : '/' :: t < '/' :: s := by
      rw [hsNames, htNames, hnames, hnames', List.flatMap_append, List.flatMap_append,
        List.flatMap_cons, List.flatMap_cons, List.flatMap_cons]
      refine List.append_left_lt ?_
      rw [List.cons_append, List.cons_append, List.append_assoc]
      exact List.cons_lt_cons_iff.2 (.inr ⟨rfl, List.append_left_lt
        (List.cons_lt_cons_iff.2 (.inl (by decide)))⟩)
    rw [Text.bytes_lt_bytes_iff, hs, ht]
    refine List.append_left_lt ?_
    rcases List.cons_lt_cons_iff.1 hflat with hslash | ⟨-, hrest⟩
    · exact absurd hslash (by decide)
    · exact hrest

end FileSystem

end ImportCensus

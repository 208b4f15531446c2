import ImportCensus.Proofs.FileSystem.Walk

/-!
# `ImportCensus.Proofs.FileSystem.Agreement`: paths lead to what a walk has met

A walk goes from directory to directory and follows each link from where it is. The path that it
hands out with a file is followed from its beginning, with one bound on the links of the whole path
and another one on its length. So the two can differ in one way only: what the walk has met can be
out of reach for the path as a whole.

* `Leads.continues`: segments that lead somewhere lead there also in front of others and with fewer
  links, unless the links do not suffice.
* `Chain.continues`: so the path along a chain comes to its last directory, or to one of the bounds.
  The induction follows the chain, and each entry adds one segment.
* `sourceFile_of_mem_walk`: the file at the path is the one that the walk has met.
-/

set_option autoImplicit false

namespace ImportCensus

namespace FileSystem

variable {fs : FileSystem}

/-- What following a path comes to that has reached `location`, where the segments `rest` are left:
they are followed from there with the links that are left, or one of the bounds has been hit. -/
inductive Continues (fs : FileSystem) (links : Nat) (location : Location) (rest : List Text) :
    Except OsError Place → Prop
  | on {left : Nat} : left ≤ links →
      Continues fs links location rest (fs.follow false left location rest)
  | tooManyLinks : Continues fs links location rest (.error .tooManyLinks)
  | nameTooLong : Continues fs links location rest (.error .nameTooLong)

/-- More links may have been left at the beginning. Only what is left in the end is bounded, so the
bound can be raised. -/
theorem Continues.mono {links more : Nat} {location : Location} {rest : List Text}
    {result : Except OsError Place} (h : Continues fs links location rest result)
    (hle : links ≤ more) : Continues fs more location rest result := by
  cases h with
  | on hleft => exact .on (Nat.le_trans hleft hle)
  | tooManyLinks => exact .tooManyLinks
  | nameTooLong => exact .nameTooLong

/-- Segments that lead to a location within a number of links lead there in front of any others.
With fewer links they lead there as well, or the links do not suffice: the rules look at the links
only where one of them is followed. -/
theorem Leads.continues {links : Nat} {here : Location} {segments : List Text} {place : Place}
    (h : Leads fs links here segments place) :
    ∀ location, place = .found location → ∀ fewer ≤ links, ∀ rest,
      Continues fs fewer location rest (fs.follow false fewer here (segments ++ rest)) := by
  induction h with
  | here =>
    rintro location ⟨⟩ fewer - rest
    exact .on (Nat.le_refl _)
  | stay hdir hstay _ ih =>
    intro location hplace fewer hfewer rest
    rw [List.cons_append, follow, hdir]
    simpa only [hstay, if_true] using ih location hplace fewer hfewer rest
  | up hdir _ ih =>
    intro location hplace fewer hfewer rest
    rw [List.cons_append, follow, hdir]
    simpa using ih location hplace fewer hfewer rest
  | vacant => exact fun location hplace => nomatch hplace
  | link hdir hentry hlink _ ih =>
    intro location hplace fewer hfewer rest
    rw [List.cons_append, follow_entry hdir hentry (by simp), hlink]
    -- The link is followed if one may be, and otherwise a bound is hit.
    cases fewer with
    | zero => exact .tooManyLinks
    | succ fewer =>
      dsimp only
      rw [← List.append_assoc]
      exact (ih location hplace fewer (Nat.le_of_succ_le_succ hfewer) rest).mono (Nat.le_succ _)
  | @down _ _ _ node _ _ hdir hentry hfound hnode _ ih =>
    intro location hplace fewer hfewer rest
    rw [List.cons_append, follow_entry hdir hentry (by simp), hfound]
    cases node with
    | link target => exact absurd rfl (hnode target)
    | file content => exact ih location hplace fewer hfewer rest
    | directory => exact ih location hplace fewer hfewer rest

/-- An empty segment at the end leads nowhere else. It asks for a directory, so without it the same
place is reached. -/
theorem Leads.of_append_nil {links : Nat} {here : Location} {segments : List Text} {place : Place}
    (h : Leads fs links here segments place) :
    ∀ front, segments = front ++ [[]] → Leads fs links here front place := by
  induction h with
  | here => exact fun front hsplit => by simp at hsplit
  | stay hdir hstay hrest ih =>
    intro front hsplit
    -- Only a step that stays where it is can be the last one with an empty segment.
    cases front with
    | nil =>
      obtain ⟨-, rfl⟩ := List.cons.inj hsplit
      exact hrest
    | cons segment front =>
      obtain ⟨rfl, hrest⟩ := List.cons.inj hsplit
      exact .stay hdir hstay (ih front hrest)
  | up hdir _ ih =>
    intro front hsplit
    cases front with
    | nil => cases hsplit
    | cons segment front =>
      obtain ⟨rfl, hrest⟩ := List.cons.inj hsplit
      exact .up hdir (ih front hrest)
  | vacant _ hentry =>
    intro front hsplit
    cases front with
    | nil => exact absurd (List.cons.inj hsplit).1 hentry.ne_nil
    | cons segment front => simp at hsplit
  | link hdir hentry hlink _ ih =>
    intro front hsplit
    cases front with
    | nil => exact absurd (List.cons.inj hsplit).1 hentry.ne_nil
    | cons segment front =>
      obtain ⟨rfl, rfl⟩ := List.cons.inj hsplit
      -- The target stands in front of the rest, which keeps its empty segment at the end.
      exact .link hdir hentry hlink (ih _ (List.append_assoc _ _ _).symm)
  | down hdir hentry hfound hnode _ ih =>
    intro front hsplit
    cases front with
    | nil => exact absurd (List.cons.inj hsplit).1 hentry.ne_nil
    | cons segment front =>
      obtain ⟨rfl, hrest⟩ := List.cons.inj hsplit
      exact .down hdir hentry hfound hnode (ih front hrest)

/-! ### Along a chain -/

/-- The name of an entry leads to where the entry leads. A link is followed from its directory with
all links but one, and here at most as many are left. -/
theorem continues_entry {dir location : Location} {name : Name} {node : Node}
    (hmem : (name, node) ∈ fs.entries dir) (hdest : fs.destination dir name node = .ok location)
    {left : Nat} (hleft : left ≤ linkLimit) (rest : List Text) :
    Continues fs linkLimit location rest (fs.follow false left dir (name :: rest)) := by
  have hnode := node?_of_mem_entries.1 hmem
  have hdir := node?_parent hnode
  have hname : name ≠ [] ∧ name ≠ ['.'] ∧ name ≠ ['.', '.'] := by
    have hproper := isName_of_mem_entries hmem
    simp_all [ImportCensus.isName]
  obtain ⟨hne, hdot, hdots⟩ := hname
  -- A name that is too long for the host is one of the bounds.
  by_cases hlong : nameLimit < name.byteLength
  · have hrefused : fs.follow false left dir (name :: rest) = .error .nameTooLong := by
      rw [follow, hdir]
      simp [hne, hdot, hdots, hlong]
    rw [hrefused]
    exact .nameTooLong
  · have hentry : IsEntry name := ⟨hne, hdot, hdots, Nat.not_lt.1 hlong⟩
    rw [follow_entry hdir hentry (by simp), hnode]
    cases node with
    | file content =>
      cases hdest
      exact .on hleft
    | directory =>
      cases hdest
      exact .on hleft
    | link target =>
      cases left with
      | zero => exact .tooManyLinks
      | succ left =>
        -- The walk followed the link with a fresh bound, and here there are as many links left or
        -- fewer.
        have hleads := leads_of_follow (location_eq_ok_iff.1 hdest)
        exact (hleads.continues location rfl left (Nat.le_sub_one_of_lt hleft) rest).mono
          (Nat.le_of_succ_le hleft)

/-- So the bounds are the only obstacle to one more name. -/
theorem Continues.entry {dir location : Location} {name : Name} {node : Node} {rest : List Text}
    {result : Except OsError Place} (h : Continues fs linkLimit dir (name :: rest) result)
    (hmem : (name, node) ∈ fs.entries dir) (hdest : fs.destination dir name node = .ok location) :
    Continues fs linkLimit location rest result := by
  cases h with
  | on hleft => exact continues_entry hmem hdest hleft rest
  | tooManyLinks => exact .tooManyLinks
  | nameTooLong => exact .nameTooLong

/-- **The path along a chain comes to its last directory**, whatever is still to follow, or it hits
one of the bounds. The segments of the path are those of the root and the names of the chain. A
slash at the end of the root stands in front of the first name and makes no segment of its own, so
the path is described with that slash behind it. -/
theorem Chain.continues {root : Text} {location start : Location} (hne : root ≠ [])
    (hroot : fs.follow false linkLimit start (root.segments '/') = .ok (.found location))
    {names : List Name} {dirs : List Location} (h : Chain fs location names dirs) :
    ∀ dir above, dirs = dir :: above → ∃ base,
      Path.join (chainPath root names) [] = base ++ ['/'] ∧ ∀ rest,
        Continues fs linkLimit dir rest
          (fs.follow false linkLimit start (base.segments '/' ++ rest)) := by
  induction h with
  | root =>
    rintro dir above ⟨⟩
    have hleads := leads_of_follow hroot
    -- If the root ends with a slash, the path goes on behind it, and otherwise one is put in.
    by_cases hslash : root.getLast? = some '/'
    · obtain ⟨base, rfl⟩ := List.getLast?_eq_some_iff.1 hslash
      refine ⟨base, by simp [Path.join, chainPath], fun rest => ?_⟩
      have hsegments : Text.segments '/' (base ++ ['/']) = Text.segments '/' base ++ [[]] :=
        Text.segments_append base []
      exact (hleads.of_append_nil _ hsegments).continues location rfl _ (Nat.le_refl _) rest
    · exact ⟨root, by simp [Path.join, chainPath, hslash, hne],
        hleads.continues location rfl _ (Nat.le_refl _)⟩
  | @step names dir next above name node hchain hmem hdest _ ih =>
    rintro dir' above' ⟨⟩
    obtain ⟨base, hbase, hcontinues⟩ := ih dir above rfl
    have hname := isName_of_mem_entries hmem
    -- The path of the entry is that of its directory with one segment more.
    have hpath : chainPath root (name :: names) = base ++ '/' :: name := by
      rw [chainPath_cons, join_eq_append, hbase, List.append_assoc]
      rfl
    refine ⟨chainPath root (name :: names), ?_, fun rest => ?_⟩
    · rw [chainPath_cons, join_join_nil _ hname]
    · rw [hpath, Text.segments_append, Text.segments_of_not_mem (slash_not_mem_of_isName hname),
        List.append_assoc]
      exact (hcontinues (name :: rest)).entry hmem hdest

/-! ### Files -/

/-- A path along a chain begins with the root, so it starts from where the root starts. -/
theorem isPrefix_chainPath (root : Text) (names : List Name) : root <+: chainPath root names := by
  induction names with
  | nil => exact List.prefix_rfl
  | cons name names ih =>
    rw [chainPath_cons]
    refine ih.trans ?_
    unfold Path.join
    split <;> exact List.prefix_append _ _

/-- A path along a chain has a NUL in it only if the root has, since names have none. -/
theorem nul_not_mem_chainPath {root : Text} (hroot : '\x00' ∉ root) {names : List Name}
    (hnames : ∀ name ∈ names, isName name = true) : '\x00' ∉ chainPath root names := by
  induction names with
  | nil => exact hroot
  | cons name names ih =>
    obtain ⟨hname, hrest⟩ := List.forall_mem_cons.1 hnames
    have hfree : '\x00' ∉ name := by simp_all [isName]
    have hpath := ih hrest
    rw [chainPath_cons]
    unfold Path.join
    split <;> simp [hpath, hfree]

/-- The path of a file at the end of a chain leads to that file, unless the host refuses the path
for one of the bounds that it sets to a whole path: the links on the way, or the length of the path
or of a name. -/
theorem EndsInFile.read_eq {root : Text} {location : Location} {names : List Name} {name : Name}
    {content : Content} (h : EndsInFile fs location names name content)
    (hroot : fs.locate root = .ok location) :
    Path.fileName (chainPath root (name :: names)) = name ∧
      (fs.read (chainPath root (name :: names)) = content ∨
        ∃ cause, fs.read (chainPath root (name :: names)) = .error cause ∧
          (cause = .tooManyLinks ∨ cause = .nameTooLong)) := by
  obtain ⟨dir, above, node, found, hchain, hmem, hdest, hfile⟩ := h
  obtain ⟨hnul, hne, -, start, hstart, hfollow⟩ := place_eq_ok_iff.1 (location_eq_ok_iff.1 hroot)
  obtain ⟨base, hbase, hcontinues⟩ := hchain.continues hne hfollow dir above rfl
  have hname := isName_of_mem_entries hmem
  have hsegments : (chainPath root (name :: names)).segments '/' = base.segments '/' ++ [name] := by
    rw [chainPath_cons, join_eq_append, hbase, List.append_assoc]
    show Text.segments '/' (base ++ '/' :: name) = _
    rw [Text.segments_append, Text.segments_of_not_mem (slash_not_mem_of_isName hname)]
  refine ⟨by rw [Path.fileName, hsegments, List.getLast?_concat, Option.getD_some], ?_⟩
  -- The path is refused as a whole only if it is too long.
  have hproper := nul_not_mem_chainPath hnul
    (List.forall_mem_cons.2 ⟨hname, hchain.isName⟩ : ∀ n ∈ name :: names, isName n = true)
  obtain ⟨tail, htail⟩ := isPrefix_chainPath root (name :: names)
  have hfilled : chainPath root (name :: names) ≠ [] := by
    rw [← htail]
    exact List.append_ne_nil_of_left_ne_nil hne tail
  have hagain : fs.start? (chainPath root (name :: names)) = some start := by
    rw [start?, ← htail, List.head?_append_of_ne_nil _ hne]
    exact hstart
  have hplace : fs.place false (chainPath root (name :: names)) =
      if pathLimit ≤ (chainPath root (name :: names)).byteLength then .error .nameTooLong
      else fs.follow false linkLimit start (base.segments '/' ++ [name]) := by
    rw [FileSystem.place, if_neg (by simpa using hproper), if_neg (by simpa using hfilled), hagain,
      hsegments]
  have hend := (hcontinues [name]).entry hmem hdest
  unfold FileSystem.read locate
  rw [hplace]
  split
  · exact .inr ⟨.nameTooLong, rfl, .inr rfl⟩
  · generalize fs.follow false linkLimit start (base.segments '/' ++ [name]) = result at hend
    cases hend with
    | on _ =>
      left
      rw [follow]
      show fs.contentAt found = content
      rw [contentAt, hfile]
    | tooManyLinks => exact .inr ⟨.tooManyLinks, rfl, .inl rfl⟩
    | nameTooLong => exact .inr ⟨.nameTooLong, rfl, .inr rfl⟩

/-- **Paths lead to what a walk has met.** The file at a path that a walk hands out is the file that
the walk has met, with the same name and the same content, unless a bound of the host keeps the path
as a whole from being followed. -/
theorem sourceFile_of_mem_walk {sorted : Bool} {root : Stop} {file : SourceFile}
    (hroot : fs.locate root.path = .ok root.location) (h : .file file ∈ fs.walk sorted root) :
    fs.sourceFile file.path = file ∨
      ∃ cause, fs.read file.path = .error cause ∧
        (cause = .tooManyLinks ∨ cause = .nameTooLong) := by
  obtain ⟨names, name, content, hends, rfl⟩ := endsInFile_of_mem_walk h
  obtain ⟨hname, hread⟩ := hends.read_eq hroot
  refine hread.imp_left fun hcontent => ?_
  rw [sourceFile, hname, hcontent]

end FileSystem

end ImportCensus

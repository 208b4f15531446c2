import ImportCensus.FileSystem.Path
import ImportCensus.Proofs.Text.Segments

/-!
# `ImportCensus.Proofs.FileSystem.Path`: where paths lead, and what writing changes

`FileSystem.follow` goes along the segments of a path with a bound on links, and refuses in many
places. `Leads` has one rule for each way in which it goes on, and none for refusals.

* `leads_of_follow`, `follow_of_leads`: following succeeds exactly along `Leads`.
* `Leads.settled`: a path that leads to something leads to a file or a directory, never to a link.
  The induction needs that the parent of a directory is one, which is the invariant `rooted`.
* `Leads.of_vacant`: a place that is not taken has a name which an entry can have.
* `SameShape.follow_eq`: paths depend on the nodes at locations, and neither on the contents of
  files nor on the order of the table.
* `exists_wrote_of_write`: a successful write changes the file to which the path leads, or makes it,
  and nothing else.
-/

set_option autoImplicit false

namespace ImportCensus

/-- A node without the content that it may have. -/
def Node.shape : Node → Node
  | .file _ => .file (.ok .empty)
  | node => node

namespace FileSystem

variable {fs : FileSystem}

/-! ### Nodes -/

/-- The test for a directory, as a statement about what stands at the location. The test is what the
program calls, and all proofs speak of the node. -/
theorem isDirectory_eq_true_iff {location : Location} :
    fs.isDirectory location = true ↔ fs.node? location = some .directory := by
  unfold isDirectory
  cases fs.node? location with
  | none => simp
  | some node => cases node <;> simp

/-- The directory of a node. This is the invariant `rooted` of the table, and it is what keeps a
path from going on below a file. -/
theorem node?_parent {name : Name} {dir : Location} {node : Node}
    (h : fs.node? (name :: dir) = some node) : fs.node? dir = some .directory := by
  have hmem := List.mem_map_of_mem (f := Prod.fst) (node?_eq_some_iff.1 h)
  exact isDirectory_eq_true_iff.1 (isDirectory_iff.2 (fs.rooted name dir hmem))

/-- Two dots lead from a directory to a directory. The top has no parent, and there they stay. -/
theorem node?_tail {location : Location} (h : fs.node? location = some .directory) :
    fs.node? location.tail = some .directory := by
  cases location with
  | nil => exact h
  | cons name dir => exact node?_parent h

/-- The names of a location at which something stands are proper, by the invariant `named`. -/
theorem isName_of_node? {location : Location} {node : Node} (h : fs.node? location = some node) :
    location.all isName = true := by
  cases location with
  | nil => rfl
  | cons name dir =>
    have hmem := List.mem_map_of_mem (f := Prod.fst) (node?_eq_some_iff.1 h)
    exact List.all_eq_true.2 (fs.named _ hmem)

/-- The order of the table does not matter to what stands where, since no location has two rows. -/
theorem node?_eq_of_perm {other : FileSystem} (h : other.nodes.Perm fs.nodes)
    (location : Location) : other.node? location = fs.node? location := by
  cases location with
  | nil => rfl
  | cons name dir =>
    refine Option.ext fun node => ?_
    rw [node?_eq_some_iff, node?_eq_some_iff]
    exact h.mem_iff

/-- The node at a location after another one was put somewhere: the new one there, and elsewhere
what was there before. The top is never in question, since nothing can be put in its place. -/
theorem node?_put {location : Location} {node : Node} (h : fs.accepts location node = true)
    (other : Location) :
    (fs.put location node).node? other =
      if other = location then some node else fs.node? other := by
  have hput : (fs.put location node).nodes = putNode location node fs.nodes := by
    rw [put, dif_pos h]
  cases other with
  | nil =>
    -- Nothing is put at the top, which is no entry of the table.
    have hne : [] ≠ location := by
      rintro rfl
      simp [accepts, isDirectory, node?] at h
    rw [if_neg hne]
    rfl
  | cons name dir =>
    -- Below the top, nodes are found in the table.
    have hmem (found : Node) : (fs.put location node).node? (name :: dir) = some found ↔
        (name :: dir, found) ∈ putNode location node fs.nodes := by
      rw [node?_eq_some_iff, hput]
    by_cases hsame : name :: dir = location
    · rw [if_pos hsame, hmem, hsame]
      exact mem_putNode
    · rw [if_neg hsame]
      refine Option.ext fun found => ?_
      rw [hmem, mem_putNode_of_ne hsame, node?_eq_some_iff]

/-! ### Following a path -/

/-- Tests for a segment that is looked up in a directory. -/
structure IsEntry (segment : Text) : Prop where
  ne_nil : segment ≠ []
  ne_dot : segment ≠ ['.']
  ne_dots : segment ≠ ['.', '.']
  length_le : segment.byteLength ≤ nameLimit

/-- A segment is looked up if the three tests in front of that have let it pass. -/
theorem IsEntry.mk' {segment : Text} (hstay : ¬ (segment = [] ∨ segment = ['.']))
    (hup : segment ≠ ['.', '.']) (hlong : ¬ nameLimit < segment.byteLength) : IsEntry segment :=
  ⟨fun h => hstay (.inl h), fun h => hstay (.inr h), hup, Nat.not_lt.1 hlong⟩

/-- Where segments lead from a location, over at most `links` links. -/
inductive Leads (fs : FileSystem) : Nat → Location → List Text → Place → Prop
  | here {links : Nat} {here : Location} : Leads fs links here [] (.found here)
  | stay {links : Nat} {here : Location} {segment : Text} {rest : List Text} {place : Place} :
      fs.node? here = some .directory → segment = [] ∨ segment = ['.'] →
      Leads fs links here rest place → Leads fs links here (segment :: rest) place
  | up {links : Nat} {here : Location} {rest : List Text} {place : Place} :
      fs.node? here = some .directory → Leads fs links here.tail rest place →
      Leads fs links here (['.', '.'] :: rest) place
  | vacant {links : Nat} {here : Location} {segment : Text} :
      fs.node? here = some .directory → IsEntry segment → fs.node? (segment :: here) = none →
      Leads fs links here [segment] (.vacant here segment)
  | link {links : Nat} {here : Location} {segment target : Text} {rest : List Text}
      {place : Place} :
      fs.node? here = some .directory → IsEntry segment →
      fs.node? (segment :: here) = some (.link target) →
      Leads fs links (if target.head? = some '/' then [] else here) (target.segments '/' ++ rest)
        place →
      Leads fs (links + 1) here (segment :: rest) place
  | down {links : Nat} {here : Location} {segment : Text} {node : Node} {rest : List Text}
      {place : Place} :
      fs.node? here = some .directory → IsEntry segment → fs.node? (segment :: here) = some node →
      (∀ target, node ≠ .link target) → Leads fs links (segment :: here) rest place →
      Leads fs links here (segment :: rest) place

/-- Following segments successfully goes by the rules. Each case of the recursion that does not
refuse is one rule, so nothing is left to show in any of them. -/
theorem leads_of_follow {creating : Bool} {links : Nat} {here : Location} {segments : List Text}
    {place : Place} (h : fs.follow creating links here segments = .ok place) :
    Leads fs links here segments place := by
  fun_induction follow fs creating links here segments with
  | case1 =>
    cases h
    exact .here
  | case3 _ _ _ _ hdir hstay ih => exact .stay hdir hstay (ih h)
  | case4 _ _ _ hdir _ ih => exact .up hdir (ih h)
  | case7 _ _ _ _ hdir hstay hup _ hlong hnone hlast =>
    cases h
    rw [List.isEmpty_iff.1 hlast]
    exact .vacant hdir (.mk' hstay hup hlong) hnone
  | case10 _ _ _ hdir hstay hup _ hlong _ hlink _ _ ih =>
    exact .link hdir (.mk' hstay hup hlong) hlink (ih h)
  | case11 _ _ _ _ hdir hstay hup _ hlong _ hnode hfound ih =>
    exact .down hdir (.mk' hstay hup hlong) hfound (fun target e => hnode target e) (ih h)
  -- The other cases are the refusals.
  | _ => cases h

/-- An entry that is looked up in a directory, where no slash behind it is refused. What a program
does with a name is this one equation, and proofs about names need not open the definition. -/
theorem follow_entry {creating : Bool} {links : Nat} {here : Location} {segment : Text}
    {rest : List Text} (hdir : fs.node? here = some .directory) (hentry : IsEntry segment)
    (hslash : ¬ (creating && !rest.isEmpty && rest.all List.isEmpty) = true) :
    fs.follow creating links here (segment :: rest) =
      match fs.node? (segment :: here) with
      | none => if rest.isEmpty then .ok (.vacant here segment) else .error .notFound
      | some (.link target) =>
        match links with
        | 0 => .error .tooManyLinks
        | links + 1 =>
          fs.follow creating links (if target.head? = some '/' then [] else here)
            (target.segments '/' ++ rest)
      | some _ => fs.follow creating links (segment :: here) rest := by
  have hstay : ¬ (segment = [] ∨ segment = ['.']) := fun h => h.elim hentry.ne_nil hentry.ne_dot
  have hlength : ¬ nameLimit < segment.byteLength := Nat.not_lt.2 hentry.length_le
  rw [follow, hdir]
  exact (if_neg hstay).trans
    ((if_neg hentry.ne_dots).trans ((if_neg hslash).trans (if_neg hlength)))

/-- The rules can be followed. With `leads_of_follow` they say exactly when a path leads somewhere,
and without any mention of whether a last name may be missing. -/
theorem follow_of_leads {links : Nat} {here : Location} {segments : List Text} {place : Place}
    (h : Leads fs links here segments place) : fs.follow false links here segments = .ok place := by
  induction h with
  | here => rw [follow]
  | stay hdir hstay _ ih =>
    rw [follow, hdir]
    simpa [hstay] using ih
  | up hdir _ ih =>
    rw [follow, hdir]
    simpa using ih
  | vacant hdir hentry hnone =>
    rw [follow_entry hdir hentry (by simp), hnone]
    rfl
  | link hdir hentry hlink _ ih =>
    rw [follow_entry hdir hentry (by simp), hlink]
    exact ih
  | @down _ _ _ node _ _ hdir hentry hfound hnode _ ih =>
    rw [follow_entry hdir hentry (by simp), hfound]
    -- Links have their own rule, and other nodes are gone down to alike.
    cases node with
    | link target => exact absurd rfl (hnode target)
    | file content => exact ih
    | directory => exact ih

/-! ### What a path leads to -/

/-- A location at which a file or a directory stands. -/
def IsSettled (fs : FileSystem) (location : Location) : Prop :=
  fs.node? location = some .directory ∨ ∃ content, fs.node? location = some (.file content)

/-- Segments that start from a settled location, or of which there is one at least, lead to a
settled location. A link is never the end of a path, since its target is followed. -/
theorem Leads.settled {links : Nat} {here : Location} {segments : List Text} {place : Place}
    (h : Leads fs links here segments place) :
    ∀ location, place = .found location → (segments = [] → fs.IsSettled here) →
      fs.IsSettled location := by
  induction h with
  | here =>
    rintro location ⟨⟩ hstart
    exact hstart rfl
  | stay hdir _ _ ih => exact fun location hplace _ => ih location hplace fun _ => .inl hdir
  | up hdir _ ih =>
    exact fun location hplace _ => ih location hplace fun _ => .inl (node?_tail hdir)
  | vacant => exact fun location hplace => nomatch hplace
  | link _ _ _ _ ih =>
    -- The segments of a target are never empty, so where they start from does not matter.
    refine fun location hplace _ => ih location hplace fun hnil => ?_
    have hne := List.splitOn_ne_nil '/' _ (List.append_eq_nil_iff.1 hnil).1
    exact hne.elim
  | @down _ _ _ node _ _ _ _ hfound hnode _ ih =>
    refine fun location hplace _ => ih location hplace fun _ => ?_
    cases node with
    | link target => exact absurd rfl (hnode target)
    | file content => exact .inr ⟨content, hfound⟩
    | directory => exact .inl hfound

/-- A segment that can be looked up and has neither a slash nor a NUL is a proper name. The converse
does not hold, since a proper name can be too long to be looked up. -/
theorem IsEntry.isName {segment : Text} (h : IsEntry segment)
    (hchars : ∀ c ∈ segment, c ≠ '/' ∧ c ≠ '\x00') : isName segment = true := by
  have hslash : '/' ∉ segment := fun hc => (hchars _ hc).1 rfl
  have hnul : '\x00' ∉ segment := fun hc => (hchars _ hc).2 rfl
  simp [ImportCensus.isName, h.ne_nil, h.ne_dot, h.ne_dots, hslash, hnul]

/-- A place that is not taken lies in a directory, and its name is one that an entry can have. The
name can come from the target of a link, and there the table guarantees that it has no NUL in it. -/
theorem Leads.of_vacant {links : Nat} {here : Location} {segments : List Text} {place : Place}
    (h : Leads fs links here segments place) :
    ∀ dir name, place = .vacant dir name →
      (∀ segment ∈ segments, ∀ c ∈ segment, c ≠ '/' ∧ c ≠ '\x00') →
      fs.node? dir = some .directory ∧ fs.node? (name :: dir) = none ∧ isName name = true := by
  induction h with
  | here => exact fun dir name hplace => nomatch hplace
  | stay _ _ _ ih =>
    exact fun dir name hplace hchars => ih dir name hplace (List.forall_mem_cons.1 hchars).2
  | up _ _ ih =>
    exact fun dir name hplace hchars => ih dir name hplace (List.forall_mem_cons.1 hchars).2
  -- Only this rule ends at a vacant place, and the others hand on what follows.
  | vacant hdir hentry hnone =>
    rintro dir name ⟨⟩ hchars
    exact ⟨hdir, hnone, hentry.isName (hchars _ List.mem_cons_self)⟩
  | @link _ here segment target rest _ _ _ hlink _ ih =>
    refine fun dir name hplace hchars => ih dir name hplace fun other hother c hc => ?_
    rcases List.mem_append.1 hother with hother | hother
    · -- The target of a link can be stored, so there is no NUL in it.
      have hstorable := fs.storable _ (node?_eq_some_iff.1 hlink)
      have hmem := Text.mem_of_mem_segments hother hc
      refine ⟨hmem.2, fun hnul => ?_⟩
      rw [hnul] at hmem
      simp [Node.isStorable, hmem.1] at hstorable
    · exact hchars other (List.mem_cons_of_mem segment hother) c hc
  | down _ _ _ _ _ ih =>
    exact fun dir name hplace hchars => ih dir name hplace (List.forall_mem_cons.1 hchars).2

/-- `SameShape fs other`: the same directories and links stand at the same locations, and there are
files at the same locations. -/
def SameShape (fs other : FileSystem) : Prop :=
  ∀ location, (other.node? location).map Node.shape = (fs.node? location).map Node.shape

section

variable {other : FileSystem} (hshape : SameShape fs other) {location : Location}

include hshape

/-- Where nothing stands in one file system, nothing stands in the other. -/
theorem SameShape.node?_eq_none (h : fs.node? location = none) : other.node? location = none := by
  have hsame := hshape location
  rw [h] at hsame
  simpa using hsame

/-- Both have the same directories. -/
theorem SameShape.node?_eq_directory (h : fs.node? location = some .directory) :
    other.node? location = some .directory := by
  have hsame := hshape location
  rw [h] at hsame
  obtain ⟨node, hnode, hdirectory⟩ := Option.map_eq_some_iff.1 hsame
  cases node <;> first | exact hnode | cases hdirectory

/-- Both have the same links, with the same targets. -/
theorem SameShape.node?_eq_link {target : Text} (h : fs.node? location = some (.link target)) :
    other.node? location = some (.link target) := by
  have hsame := hshape location
  rw [h] at hsame
  obtain ⟨node, hnode, hlink⟩ := Option.map_eq_some_iff.1 hsame
  cases node with
  | link text =>
    cases hlink
    exact hnode
  | file content => cases hlink
  | directory => cases hlink

/-- Where one has a file the other has one too, with any content. -/
theorem SameShape.node?_eq_file {content : Content} (h : fs.node? location = some (.file content)) :
    ∃ content, other.node? location = some (.file content) := by
  have hsame := hshape location
  rw [h] at hsame
  obtain ⟨node, hnode, hfile⟩ := Option.map_eq_some_iff.1 hsame
  cases node with
  | file content => exact ⟨content, hnode⟩
  | link text => cases hfile
  | directory => cases hfile

/-- Where segments lead depends on what stands at the locations, but not on the contents of files,
and on nothing else. The cases are those of the recursion. In each of them the same node is found in
the other file system, so it takes the same branch. -/
theorem SameShape.follow_eq (creating : Bool) (links : Nat) (here : Location)
    (segments : List Text) :
    other.follow creating links here segments = fs.follow creating links here segments := by
  -- One case for each branch: which one is taken depends on the kinds of nodes, and not on
  -- contents.
  fun_induction follow fs creating links here segments with
  | case1 => rw [follow]
  | case2 _ _ _ _ hnone => rw [follow, hshape.node?_eq_none hnone]
  | case3 _ _ _ _ hdir hstay ih =>
    rw [follow, hshape.node?_eq_directory hdir]
    exact (if_pos hstay).trans ih
  | case4 _ _ _ hdir hstay ih =>
    rw [follow, hshape.node?_eq_directory hdir]
    simp only [hstay, if_false, if_true, ih]
  | case5 _ _ _ _ hdir hstay hup hslash =>
    rw [follow, hshape.node?_eq_directory hdir]
    simp only [if_neg hstay, if_neg hup, if_pos hslash]
  | case6 _ _ _ _ hdir hstay hup hslash hlong =>
    rw [follow, hshape.node?_eq_directory hdir]
    simp only [if_neg hstay, if_neg hup, if_neg hslash, if_pos hlong]
  | case7 _ _ _ _ hdir hstay hup hslash hlong hnone hlast =>
    rw [follow_entry (hshape.node?_eq_directory hdir) (.mk' hstay hup hlong) hslash,
      hshape.node?_eq_none hnone]
    exact if_pos hlast
  | case8 _ _ _ _ hdir hstay hup hslash hlong hnone hlast =>
    rw [follow_entry (hshape.node?_eq_directory hdir) (.mk' hstay hup hlong) hslash,
      hshape.node?_eq_none hnone]
    exact if_neg hlast
  | case9 _ _ _ hdir hstay hup hslash hlong _ hlink =>
    rw [follow_entry (hshape.node?_eq_directory hdir) (.mk' hstay hup hlong) hslash,
      hshape.node?_eq_link hlink]
  | case10 _ _ _ hdir hstay hup hslash hlong _ hlink _ _ ih =>
    rw [follow_entry (hshape.node?_eq_directory hdir) (.mk' hstay hup hlong) hslash,
      hshape.node?_eq_link hlink]
    exact ih
  | case11 _ _ _ _ hdir hstay hup hslash hlong node hnode hfound ih =>
    rw [follow_entry (hshape.node?_eq_directory hdir) (.mk' hstay hup hlong) hslash, ← ih]
    cases node with
    | link target => exact absurd rfl (hnode target)
    | file content =>
      obtain ⟨content, hfile⟩ := hshape.node?_eq_file hfound
      rw [hfile]
    | directory => rw [hshape.node?_eq_directory hfound]
  | case12 _ _ _ _ node hnode hfound =>
    rw [follow]
    cases node with
    | directory => exact absurd rfl hnode
    | file content =>
      obtain ⟨content, hfile⟩ := hshape.node?_eq_file hfound
      rw [hfile]
    | link target => rw [hshape.node?_eq_link hfound]

/-- So does what a path leads to, which also depends on where relative paths start. -/
theorem SameShape.locate_eq (hstart : other.workingDirectory = fs.workingDirectory)
    (path : Text) : other.locate path = fs.locate path := by
  unfold locate FileSystem.place start?
  simp only [hshape.follow_eq, hstart]

end

/-- Where segments lead does not depend on the order of the table. The same node everywhere is more
than the same shape. -/
theorem follow_congr {other : FileSystem}
    (hsame : ∀ location, other.node? location = fs.node? location) (creating : Bool) (links : Nat)
    (here : Location) (segments : List Text) :
    other.follow creating links here segments = fs.follow creating links here segments :=
  SameShape.follow_eq (fun location => by rw [hsame]) creating links here segments

/-- A path leads somewhere if it is not refused as a whole and its segments lead there. Refused as a
whole are paths with a NUL, the empty one and those that are too long, and relative ones where there
is no working directory. -/
theorem place_eq_ok_iff {creating : Bool} {path : Text} {place : Place} :
    fs.place creating path = .ok place ↔
      '\x00' ∉ path ∧ path ≠ [] ∧ path.byteLength < pathLimit ∧
        ∃ start, fs.start? path = some start ∧
          fs.follow creating linkLimit start (path.segments '/') = .ok place := by
  unfold FileSystem.place
  -- The checks in their order: the path is refused by one of them, or goes on to the next.
  by_cases hnul : '\x00' ∈ path
  · rw [if_pos (by simpa using hnul)]
    simp [hnul]
  rw [if_neg (by simpa using hnul)]
  by_cases hempty : path = []
  · rw [if_pos (by simpa using hempty)]
    simp [hempty]
  rw [if_neg (by simpa using hempty)]
  by_cases hlong : pathLimit ≤ path.byteLength
  · rw [if_pos hlong]
    simp [Nat.not_lt.2 hlong]
  rw [if_neg hlong]
  cases fs.start? path <;> simp [hnul, hempty, Nat.lt_of_not_le hlong]

/-- Where a path leads does not depend on the order of the table. -/
theorem locate_congr {other : FileSystem}
    (hsame : ∀ location, other.node? location = fs.node? location)
    (hstart : other.workingDirectory = fs.workingDirectory) (path : Text) :
    other.locate path = fs.locate path :=
  SameShape.locate_eq (fun location => by rw [hsame]) hstart path

/-- A place is the location found, and a free place is none. -/
theorem location_eq_ok_iff {place : Except OsError Place} {location : Location} :
    place >>= Place.location = .ok location ↔ place = .ok (.found location) := by
  cases place with
  | error cause => simp [bind, Except.bind]
  | ok place => cases place <;> simp [bind, Except.bind, Place.location]

/-- What the target of a link leads to is a file or a directory. A target has a segment at least, so
it does not matter where it starts from. -/
theorem isSettled_of_locateTarget {dir location : Location} {target : Text}
    (h : fs.locateTarget dir target = .ok location) : fs.IsSettled location :=
  (leads_of_follow (location_eq_ok_iff.1 h)).settled location rfl fun hnil =>
    absurd hnil (List.splitOn_ne_nil '/' target)

/-! ### Writing -/

/-- The location of a place, whether something stands there or not. -/
def Place.target : Place → Location
  | .found location => location
  | .vacant dir name => name :: dir

/-- Once there is a file at the place to which segments lead, and nothing else has changed, they
lead to that file. The directories and links on the way are as they were. A name that was free is
now taken, so the rule for free names turns into that for names which are found. -/
theorem Leads.written {written : FileSystem} {content : Content} {links : Nat} {here : Location}
    {segments : List Text} {place : Place} (h : Leads fs links here segments place)
    (hfile : written.node? place.target = some (.file content))
    (hother : ∀ location, location ≠ place.target → written.node? location = fs.node? location)
    (hfree : fs.node? place.target = none ∨ ∃ old, fs.node? place.target = some (.file old)) :
    Leads written links here segments (.found place.target) := by
  -- Directories and links on the way are not where the file is.
  have hkeep {location : Location} {node : Node} (hnode : fs.node? location = some node)
      (hnot : ∀ content, node ≠ .file content) : written.node? location = some node := by
    rw [hother, hnode]
    rintro rfl
    rcases hfree with hnone | ⟨old, hold⟩
    · rw [hnone] at hnode
      cases hnode
    · rw [hold] at hnode
      cases hnode
      exact hnot old rfl
  induction h with
  | here => exact .here
  | stay hdir hstay _ ih =>
    exact .stay (hkeep hdir nofun) hstay (ih hfile hother hfree)
  | up hdir _ ih => exact .up (hkeep hdir nofun) (ih hfile hother hfree)
  | vacant hdir hentry _ => exact .down (hkeep hdir nofun) hentry hfile nofun .here
  | link hdir hentry hlink _ ih =>
    exact .link (hkeep hdir nofun) hentry (hkeep hlink nofun) (ih hfile hother hfree)
  | @down links here segment node rest place hdir hentry hfound hnode _ ih =>
    have hrest := ih hfile hother hfree
    by_cases htarget : segment :: here = place.target
    · have hhere : written.node? (segment :: here) = some (.file content) := by rw [htarget, hfile]
      exact .down (hkeep hdir nofun) hentry hhere nofun hrest
    · exact .down (hkeep hdir nofun) hentry (by rw [hother _ htarget, hfound]) hnode hrest

/-- A file can be put at a free place, and at one where a file stands. What is asked for is what the
invariants of the table need. -/
theorem accepts_file {location : Location} (content : Content)
    (hnames : location.all isName = true) (hdir : fs.node? location.tail = some .directory)
    (hfree : fs.node? location = none ∨ ∃ old, fs.node? location = some (.file old)) :
    fs.accepts location (.file content) = true := by
  have hparent : fs.isDirectory location.tail = true := isDirectory_eq_true_iff.2 hdir
  have hnot : fs.isDirectory location = false := by
    unfold isDirectory
    rcases hfree with hnone | ⟨old, hold⟩
    · rw [hnone]
    · rw [hold]
  simp only [accepts, hnames, hparent, hnot, Node.isStorable, Bool.and_self, Bool.not_false]

/-- What a write of `bytes` to a path changes. -/
structure Wrote (fs : FileSystem) (path : Text) (bytes : ByteArray) (location : Location)
    (written : FileSystem) : Prop where
  /-- The path led to the location, or to the free place there. -/
  resolves : ∃ place, fs.place true path = .ok place ∧ place.target = location
  /-- It now leads to a file with the bytes. -/
  locate_eq : written.locate path = .ok location
  node?_eq : written.node? location = some (.file (.ok bytes))
  /-- Nothing was there before, or a file. -/
  free : fs.node? location = none ∨ ∃ old, fs.node? location = some (.file old)
  /-- All else is as it was. -/
  node?_of_ne : ∀ other, other ≠ location → written.node? other = fs.node? other
  workingDirectory_eq : written.workingDirectory = fs.workingDirectory

/-- Where relative paths start does not change when something is put into the table. -/
theorem workingDirectory_put (location : Location) (node : Node) :
    (fs.put location node).workingDirectory = fs.workingDirectory := by
  unfold put
  split <;> rfl

/-- A path that leads to a place for a file leads to that file once it is put there. The conditions
on the path as a whole are the same before and after, and its segments are followed by
`Leads.written`. -/
theorem wrote_put {path : Text} {place : Place} {bytes : ByteArray}
    (hplace : fs.place true path = .ok place)
    (hfits : fs.accepts place.target (.file (.ok bytes)) = true)
    (hfree : fs.node? place.target = none ∨ ∃ old, fs.node? place.target = some (.file old)) :
    Wrote fs path bytes place.target (fs.put place.target (.file (.ok bytes))) where
  resolves := ⟨place, hplace, rfl⟩
  locate_eq := by
    have hfile := (node?_put hfits place.target).trans (if_pos rfl)
    have hother (location : Location) (hne : location ≠ place.target) :=
      (node?_put hfits location).trans (if_neg hne)
    obtain ⟨hnul, hempty, hlong, start, hstart, hfollow⟩ := place_eq_ok_iff.1 hplace
    -- The path led here before the write, so it leads here with the file in place.
    have hwritten := follow_of_leads ((leads_of_follow hfollow).written hfile hother hfree)
    have hagain : (fs.put place.target (.file (.ok bytes))).start? path = some start := by
      rw [start?, workingDirectory_put]
      exact hstart
    exact location_eq_ok_iff.2 (place_eq_ok_iff.2
      ⟨hnul, hempty, hlong, start, hagain, hwritten⟩)
  node?_eq := (node?_put hfits _).trans (if_pos rfl)
  free := hfree
  node?_of_ne other hne := (node?_put hfits other).trans (if_neg hne)
  workingDirectory_eq := workingDirectory_put _ _

/-- A place that is not taken can take a file. Its directory is there and its name is proper, so the
table with the new file has all invariants. -/
theorem accepts_vacant {path : Text} {dir : Location} {name : Name} (content : Content)
    (hplace : fs.place true path = .ok (.vacant dir name)) :
    fs.accepts (name :: dir) (.file content) = true ∧ fs.node? (name :: dir) = none := by
  obtain ⟨hnul, -, -, start, -, hfollow⟩ := place_eq_ok_iff.1 hplace
  have hchars : ∀ segment ∈ path.segments '/', ∀ c ∈ segment, c ≠ '/' ∧ c ≠ '\x00' := by
    intro segment hsegment c hc
    have hmem := Text.mem_of_mem_segments hsegment hc
    refine ⟨hmem.2, ?_⟩
    rintro rfl
    exact hnul hmem.1
  obtain ⟨hdir, hnone, hname⟩ := (leads_of_follow hfollow).of_vacant dir name rfl hchars
  refine ⟨accepts_file content ?_ hdir (.inl hnone), hnone⟩
  rw [List.all_cons, hname, isName_of_node? hdir]
  rfl

/-- **A successful write changes one file.** It was free, or a file stood there. In either case the
table accepts the new one, so that the write is not dropped without a fault. -/
theorem exists_wrote_of_write {path : Text} {bytes : ByteArray} {written : FileSystem}
    (h : fs.write path bytes = .ok written) : ∃ location, Wrote fs path bytes location written := by
  unfold write at h
  cases hplace : fs.place true path with
  | error cause =>
    rw [hplace] at h
    cases h
  | ok place =>
    rw [hplace] at h
    cases place with
    | vacant dir name =>
      cases h
      obtain ⟨hfits, hnone⟩ := accepts_vacant (.ok bytes) hplace
      exact ⟨name :: dir, wrote_put hplace hfits (.inl hnone)⟩
    | found location =>
      simp only [bind, Except.bind] at h
      split at h
      · next content hfile =>
        cases h
        -- Above a file there is a directory, so its place may hold another file.
        have hparent : fs.node? location.tail = some .directory := by
          cases location with
          | nil => cases hfile
          | cons name dir => exact node?_parent hfile
        have hfits := accepts_file (.ok bytes) (isName_of_node? hfile) hparent (.inr ⟨_, hfile⟩)
        exact ⟨location, wrote_put hplace hfits (.inr ⟨_, hfile⟩)⟩
      · cases h

/-- What was written is read back from the path to which it was written: the path leads to the file
that holds the bytes, whether it led to another file before or to a free place. -/
theorem Wrote.read_eq {path : Text} {bytes : ByteArray} {location : Location}
    {written : FileSystem} (h : Wrote fs path bytes location written) :
    written.read path = .ok bytes := by
  unfold read
  rw [h.locate_eq]
  show written.contentAt location = _
  rw [contentAt, h.node?_eq]

end FileSystem

end ImportCensus

import Mathlib.Data.List.Nodup
import ImportCensus.FileSystem.Walk
import ImportCensus.Proofs.FileSystem.Reach

/-!
# `ImportCensus.Proofs.FileSystem.Walk`: a walk meets what chains of entries lead to

A walk goes down by plain recursion, and only its links are compared with the directories above
them. `Meets` says what it does at an entry, without `walkStep`. A `Route` is the way to a directory
that a walk enters; its links lead to directories that are not on it yet.

* `Route.length_le`: routes are of bounded length, so a walk ends, whatever circles the links form.
* `mem_walk_iff`: the items of a walk are those at the entries of its routes.
* `exists_broken_iff`: a walk breaks exactly where a chain comes to a link that `Breaks`. Chains may
  run in a circle and routes may not, but the link that closes the circle breaks the walk.
* `mem_walk_file_iff`: a walk that does not break meets the files at the ends of all chains.
* `path_ne_of_name_ne`: files at entries with different names have different paths.
-/

set_option autoImplicit false

namespace ImportCensus

/-- The item with which a walk begins at an entry. -/
def WalkStep.item : WalkStep → WalkItem
  | .emit item => item
  | .enter stop => .directory stop.path

namespace FileSystem

variable {fs : FileSystem} {sorted : Bool}

/-! ### One entry -/

/-- The nearest of some directories that stands at a location. -/
def stopAt? (stops : List Stop) (location : Location) : Option Stop :=
  stops.find? (·.location == location)

/-- No directory of the way stands at a location that is not among theirs. -/
theorem stopAt?_eq_none_iff {stops : List Stop} {location : Location} :
    stopAt? stops location = none ↔ location ∉ stops.map Stop.location := by
  simp [stopAt?]

/-- If one is found, the location is among theirs. -/
theorem mem_map_of_stopAt? {stops : List Stop} {location : Location} {stop : Stop}
    (h : stopAt? stops location = some stop) : location ∈ stops.map Stop.location := by
  by_contra hnot
  rw [stopAt?_eq_none_iff.2 hnot] at h
  cases h

/-- What a walk does at an entry of the directory `here`. -/
inductive Meets (fs : FileSystem) (here : Stop) (above : List Stop) (name : Name) (node : Node) :
    WalkStep → Prop
  | file {location : Location} {content : Content} :
      fs.destination here.location name node = .ok location →
      fs.node? location = some (.file content) →
      Meets fs here above name node (.emit (.file ⟨Path.join here.path name, name, content⟩))
  | directory {location : Location} :
      fs.destination here.location name node = .ok location →
      fs.node? location = some .directory →
      (∀ target, node = .link target → stopAt? (here :: above) location = none) →
      Meets fs here above name node (.enter ⟨location, Path.join here.path name⟩)
  | loop {location : Location} {target : Text} {ancestor : Stop} :
      fs.destination here.location name node = .ok location →
      fs.node? location = some .directory → node = .link target →
      stopAt? (here :: above) location = some ancestor →
      Meets fs here above name node
        (.emit (.broken (.loop (Path.join here.path name) ancestor.path)))
  | dangling : fs.destination here.location name node = .error .notFound →
      Meets fs here above name node (.emit (.dangling (Path.join here.path name)))
  | unreachable {cause : OsError} : fs.destination here.location name node = .error cause →
      cause ≠ .notFound →
      Meets fs here above name node
        (.emit (.broken (.unreachable (Path.join here.path name) cause)))

/-- A walk does at an entry what `Meets` says. A link is looked up once, and what stands at its
target decides between the rules. A target never leads to another link, so they are all covered. -/
theorem meets_walkStep {here : Stop} (above : List Stop) {name : Name} {node : Node}
    (hmem : (name, node) ∈ fs.entries here.location) :
    Meets fs here above name node (fs.walkStep here above name node) := by
  have hnode := node?_of_mem_entries.1 hmem
  cases node with
  | file content => exact .file rfl hnode
  | directory => exact .directory rfl hnode nofun
  | link target =>
    have hdest : fs.destination here.location name (.link target) =
        fs.locateTarget here.location target := rfl
    cases hlocate : fs.locateTarget here.location target with
    | error cause =>
      rw [hlocate] at hdest
      simp only [walkStep, hlocate]
      cases cause with
      | notFound => exact .dangling hdest
      | _ => exact .unreachable hdest (by simp)
    | ok location =>
      rw [hlocate] at hdest
      -- A target leads to a directory or to a file, so there is no third case.
      rcases isSettled_of_locateTarget hlocate with hdir | ⟨content, hfile⟩
      · simp only [walkStep, hlocate, hdir]
        cases hfind : (here :: above).find? (·.location == location) with
        | none => exact .directory hdest hdir fun _ _ => hfind
        | some ancestor => exact .loop hdest hdir rfl hfind
      · simp only [walkStep, hlocate, hfile, contentAt]
        exact .file hdest hfile

/-- The rules exclude one another: by where the entry leads to, by what stands there, and by whether
a link leads back. So to find a rule that applies is to know what the walk does. -/
theorem Meets.unique {here : Stop} {above : List Stop} {name : Name} {node : Node}
    {step step' : WalkStep} (h : Meets fs here above name node step)
    (h' : Meets fs here above name node step') : step = step' := by
  cases h <;> cases h' <;> simp_all

/-! ### Routes -/

/-- The way to a directory that a walk enters: the names on it, the last one first, and the
directories, the root at the end. No link on it leads back. -/
inductive Route (fs : FileSystem) (root : Stop) : List Name → List Stop → Prop
  | root : Route fs root [] [root]
  | step {names : List Name} {here : Stop} {above : List Stop} {name : Name} {node : Node}
      {location : Location} :
      Route fs root names (here :: above) → (name, node) ∈ fs.entries here.location →
      fs.destination here.location name node = .ok location →
      fs.node? location = some .directory →
      (∀ target, node = .link target → stopAt? (here :: above) location = none) →
      Route fs root (name :: names) (⟨location, Path.join here.path name⟩ :: here :: above)

/-- A route is a chain, and the path by which a directory is entered leads along its names. Not
every chain is a route, since a chain may follow a link back. -/
theorem Route.chain {root : Stop} {names : List Name} {stops : List Stop}
    (h : Route fs root names stops) : Chain fs root.location names (stops.map Stop.location) := by
  induction h with
  | root => exact .root
  | step _ hmem hdest hdir _ ih => exact .step ih hmem hdest hdir

/-- The path by which a directory is entered leads along the names of the route to it, whatever the
targets of links are called. -/
theorem Route.path_eq {root : Stop} {names : List Name} {stops : List Stop}
    (h : Route fs root names stops) :
    ∀ here ∈ stops.head?, here.path = chainPath root.path names := by
  induction h with
  | root =>
    rintro here ⟨⟩
    rfl
  | step _ _ _ _ _ ih =>
    rintro here ⟨⟩
    rw [chainPath_cons, ← ih _ rfl]

/-- What is left to a walk, in one number: each entering makes it smaller. -/
def roomLeft (fs : FileSystem) (here : Stop) (above : List Stop) : Nat :=
  fs.locationsLeft (here :: above) * (fs.height + 1) + (fs.height - here.location.length)

/-- Routes do not get longer than there was room at the root. Each directory that is entered leaves
less of it, by the measure with which the walk itself is defined. So there is a bound for all
routes, which depends on the table only. -/
theorem Route.length_le {root : Stop} {names : List Name} {stops : List Stop}
    (h : Route fs root names stops) :
    ∀ here above, stops = here :: above →
      names.length + fs.roomLeft here above ≤ fs.roomLeft root [] := by
  induction h with
  | root =>
    rintro here above ⟨⟩
    simp
  | @step names here above name node location hroute hmem hdest hdir hfresh ih =>
    rintro next others ⟨⟩
    have hstep := (meets_walkStep above hmem).unique (.directory hdest hdir hfresh)
    have hless := walkStep_decreasing hmem hstep
    have hbefore := ih here above rfl
    have hroom : fs.roomLeft ⟨location, Path.join here.path name⟩ (here :: above) <
        fs.roomLeft here above := by
      unfold roomLeft
      -- The measure of the recursion is lexicographic, and its second part is at most the height.
      rcases Prod.lex_def.1 hless with hless | ⟨hsame, hless⟩
      · have hmul := Nat.mul_le_mul_right (fs.height + 1) (Nat.succ_le_of_lt hless)
        rw [Nat.succ_mul] at hmul
        simp only at hmul ⊢
        omega
      · simp only at hsame hless ⊢
        rw [hsame]
        omega
    rw [List.length_cons]
    omega

/-! ### The items of a walk -/

/-- The items at an entry, where those behind the first one are below a directory. -/
def entryItems (fs : FileSystem) (sorted : Bool) (here : Stop) (above : List Stop)
    (entry : Name × Node) : List WalkItem :=
  match fs.walkStep here above entry.1 entry.2 with
  | .emit item => [item]
  | .enter next => .directory next.path :: fs.walkFrom sorted next (here :: above)

/-- The items below a directory are those at its entries, in order. The definition carries along
that each entry is one of the listing, for its termination. Here that is left out, and all proofs
use this form. -/
theorem walkFrom_eq_flatMap (fs : FileSystem) (sorted : Bool) (here : Stop) (above : List Stop) :
    fs.walkFrom sorted here above =
      (fs.listing sorted here.location).flatMap (fs.entryItems sorted here above) := by
  rw [walkFrom]
  conv =>
    rhs
    rw [← List.attach_map_subtype_val (fs.listing sorted here.location), List.flatMap_map]
  congr 1
  funext ⟨⟨name, node⟩, hmem⟩
  unfold entryItems
  dsimp only
  split <;> split <;> simp_all

/-- An item is met below a directory if it is met at one of the entries, in whichever order they are
listed. -/
theorem mem_walkFrom_iff {here : Stop} {above : List Stop} {item : WalkItem} :
    item ∈ fs.walkFrom sorted here above ↔
      ∃ name node, (name, node) ∈ fs.entries here.location ∧
        item ∈ fs.entryItems sorted here above (name, node) := by
  rw [walkFrom_eq_flatMap, List.mem_flatMap]
  simp only [mem_listing, Prod.exists]

/-- The first item at an entry is what the step of the walk gives: the item that is passed on, or
the directory that is entered. -/
theorem item_mem_entryItems (here : Stop) (above : List Stop) (name : Name) (node : Node) :
    (fs.walkStep here above name node).item ∈ fs.entryItems sorted here above (name, node) := by
  unfold entryItems
  cases fs.walkStep here above name node <;> exact List.mem_cons_self

/-- An item that a walk meets at the end of a route. -/
def AtRoute (fs : FileSystem) (root : Stop) (item : WalkItem) : Prop :=
  ∃ names here above name node step, Route fs root names (here :: above) ∧
    (name, node) ∈ fs.entries here.location ∧ Meets fs here above name node step ∧
    item = step.item

/-- What lies below a directory on a route is met at routes. The induction follows the walk. An
entry that is entered makes the route one longer, and everything else is met at the end of it. -/
theorem atRoute_of_mem_walkFrom {root here : Stop} {above : List Stop} {item : WalkItem} :
    ∀ names, Route fs root names (here :: above) → item ∈ fs.walkFrom sorted here above →
      AtRoute fs root item := by
  induction here, above using walkFrom.induct fs sorted with
  | case1 here above ih =>
    intro names hroute hitem
    obtain ⟨name, node, hmem, hitem⟩ := mem_walkFrom_iff.1 hitem
    have hmeets := meets_walkStep above hmem
    unfold entryItems at hitem
    cases hstep : fs.walkStep here above name node with
    | emit other =>
      rw [hstep] at hmeets
      simp only [hstep, List.mem_singleton] at hitem
      exact ⟨names, here, above, name, node, _, hroute, hmem, hmeets, hitem⟩
    | enter next =>
      rw [hstep] at hmeets
      simp only [hstep, List.mem_cons] at hitem
      -- The item is the directory itself, or was met below it.
      rcases hitem with hitem | hitem
      · exact ⟨names, here, above, name, node, _, hroute, hmem, hmeets, hitem⟩
      · cases hmeets with
        | directory hdest hdir hfresh =>
          exact ih name node (mem_listing.2 hmem) _ hstep (name :: names)
            (.step hroute hmem hdest hdir hfresh) hitem

/-- A walk meets what lies below the directories on routes. The induction follows the route back to
its root: what is below a directory is also below the one from which it was entered. -/
theorem walkFrom_subset {root : Stop} {names : List Name} {stops : List Stop} {item : WalkItem}
    (h : Route fs root names stops) :
    ∀ here above, stops = here :: above → item ∈ fs.walkFrom sorted here above →
      item ∈ fs.walkFrom sorted root [] := by
  induction h with
  | root =>
    rintro here above ⟨⟩ hitem
    exact hitem
  | @step names here above name node location hroute hmem hdest hdir hfresh ih =>
    rintro next others ⟨⟩ hitem
    refine ih here above rfl (mem_walkFrom_iff.2 ⟨name, node, hmem, ?_⟩)
    unfold entryItems
    rw [(meets_walkStep above hmem).unique (.directory hdest hdir hfresh)]
    exact List.mem_cons_of_mem _ hitem

/-- The items of a walk are the root and what is met at routes. On the right there is neither an
order nor a recursion, and this is how walks are compared with chains. -/
theorem mem_walk_iff {root : Stop} {item : WalkItem} :
    item ∈ fs.walk sorted root ↔ item = .directory root.path ∨ AtRoute fs root item := by
  unfold walk
  rw [List.mem_cons]
  refine or_congr_right ⟨atRoute_of_mem_walkFrom [] .root, ?_⟩
  rintro ⟨names, here, above, name, node, step, hroute, hmem, hmeets, rfl⟩
  rw [← (meets_walkStep above hmem).unique hmeets]
  exact walkFrom_subset hroute here above rfl
    (mem_walkFrom_iff.2 ⟨name, node, hmem, item_mem_entryItems here above name node⟩)

/-- In particular a walk meets what an entry at the end of a route leads to. -/
theorem Route.item_mem_walk {root here : Stop} {names : List Name} {above : List Stop} {name : Name}
    {node : Node} {step : WalkStep} (h : Route fs root names (here :: above))
    (hmem : (name, node) ∈ fs.entries here.location) (hmeets : Meets fs here above name node step) :
    step.item ∈ fs.walk sorted root :=
  mem_walk_iff.2 (.inr ⟨names, here, above, name, node, step, h, hmem, hmeets, rfl⟩)

/-! ### Breaks -/

/-- A walk that meets a link at which it breaks has come there by a route. The route is a chain, and
the directories on it are those that the link is compared with. -/
theorem exists_breaks_of_mem_walk {root : Stop} {cause : WalkFault}
    (h : .broken cause ∈ fs.walk sorted root) :
    ∃ names dir above name target, Chain fs root.location names (dir :: above) ∧
      (name, .link target) ∈ fs.entries dir ∧ Breaks fs dir above target := by
  rcases mem_walk_iff.1 h with hroot | ⟨names, here, above, name, node, step, hroute, hmem, hmeets,
    hitem⟩
  · cases hroot
  cases hmeets with
  | file => cases hitem
  | directory => cases hitem
  | @loop location target ancestor hdest hdir hlink hback =>
    cases hlink
    exact ⟨names, here.location, above.map Stop.location, name, target, hroute.chain, hmem,
      .loop hdest hdir (mem_map_of_stopAt? hback)⟩
  | dangling => cases hitem
  | @unreachable cause hdest hcause =>
    -- Only links can fail to lead somewhere.
    cases node with
    | file content => cases hdest
    | directory => cases hdest
    | link target =>
      exact ⟨names, here.location, above.map Stop.location, name, target, hroute.chain, hmem,
        .unreachable hdest hcause⟩

/-- A walk breaks at a link that `Breaks` at the end of a route. If the link leads back, some
directory of the route stands where it leads to, and the nearest one is named by the fault. -/
theorem Route.exists_broken {root here : Stop} {names : List Name} {above : List Stop} {name : Name}
    {target : Text} (h : Route fs root names (here :: above))
    (hmem : (name, .link target) ∈ fs.entries here.location)
    (hbreaks : Breaks fs here.location (above.map Stop.location) target) :
    ∃ cause, .broken cause ∈ fs.walk sorted root := by
  cases hbreaks with
  | @loop location hlocate hdir hback =>
    cases hancestor : stopAt? (here :: above) location with
    | none => exact absurd hback (stopAt?_eq_none_iff.1 hancestor)
    | some ancestor => exact ⟨_, h.item_mem_walk hmem (.loop hlocate hdir rfl hancestor)⟩
  | unreachable hlocate hcause => exact ⟨_, h.item_mem_walk hmem (.unreachable hlocate hcause)⟩

/-- Where no walk breaks every chain is a route: a link that leads back would have broken it. The
induction follows the chain, and so the part of it in front of the link is a route already. -/
theorem Chain.exists_route {root : Stop} (hunbroken : ∀ cause, .broken cause ∉ fs.walk sorted root)
    {names : List Name} {dirs : List Location} (h : Chain fs root.location names dirs) :
    ∃ stops, stops.map Stop.location = dirs ∧ Route fs root names stops := by
  induction h with
  | root => exact ⟨[root], rfl, .root⟩
  | @step names dir location above name node _ hmem hdest hdir ih =>
    obtain ⟨stops, hstops, hroute⟩ := ih
    obtain ⟨here, stops, rfl, rfl, rfl⟩ := List.map_eq_cons_iff.1 hstops
    refine ⟨_, rfl, .step hroute hmem hdest hdir ?_⟩
    rintro target rfl
    refine stopAt?_eq_none_iff.2 fun hback => ?_
    obtain ⟨cause, hbroken⟩ : ∃ cause, .broken cause ∈ fs.walk sorted root :=
      hroute.exists_broken hmem (.loop hdest hdir hback)
    exact hunbroken cause hbroken

/-- **A walk breaks exactly where a chain comes to a link that `Breaks`.** From right to left the
chain need not be a route, but if it is not, a link on it has broken the walk before. -/
theorem exists_broken_iff {root : Stop} :
    (∃ cause, .broken cause ∈ fs.walk sorted root) ↔
      ∃ names dir above name target, Chain fs root.location names (dir :: above) ∧
        (name, .link target) ∈ fs.entries dir ∧ Breaks fs dir above target := by
  constructor
  · rintro ⟨cause, hbroken⟩
    exact exists_breaks_of_mem_walk hbroken
  · rintro ⟨names, dir, above, name, target, hchain, hmem, hbreaks⟩
    by_contra hnot
    have hunbroken (cause : WalkFault) : .broken cause ∉ fs.walk sorted root :=
      fun hbroken => hnot ⟨cause, hbroken⟩
    obtain ⟨stops, hstops, hroute⟩ := hchain.exists_route hunbroken
    obtain ⟨here, stops, rfl, rfl, rfl⟩ := List.map_eq_cons_iff.1 hstops
    exact hnot (hroute.exists_broken hmem hbreaks)

/-! ### Files -/

/-- A file that a walk meets lies at the end of a chain, with the path along that chain and the
content that stands where its entry leads to. This holds of a walk that breaks as well. -/
theorem endsInFile_of_mem_walk {root : Stop} {file : SourceFile}
    (h : .file file ∈ fs.walk sorted root) :
    ∃ names name content, EndsInFile fs root.location names name content ∧
      file = ⟨chainPath root.path (name :: names), name, content⟩ := by
  rcases mem_walk_iff.1 h with hroot | ⟨names, here, above, name, node, step, hroute, hmem, hmeets,
    hitem⟩
  · cases hroot
  cases hmeets with
  | @file location content hdest hfile =>
    cases hitem
    refine ⟨names, name, content, ⟨_, _, _, _, hroute.chain, hmem, hdest, hfile⟩, ?_⟩
    rw [chainPath_cons, ← hroute.path_eq here rfl]
  | directory => cases hitem
  | loop => cases hitem
  | dangling => cases hitem
  | unreachable => cases hitem

/-- **A walk that does not break meets the files at the ends of all chains, and no others.** All
chains are routes then, so nothing lies behind a place at which the walk has turned back. -/
theorem mem_walk_file_iff {root : Stop} (hunbroken : ∀ cause, .broken cause ∉ fs.walk sorted root)
    {file : SourceFile} :
    .file file ∈ fs.walk sorted root ↔
      ∃ names name content, EndsInFile fs root.location names name content ∧
        file = ⟨chainPath root.path (name :: names), name, content⟩ := by
  refine ⟨endsInFile_of_mem_walk, ?_⟩
  rintro ⟨names, name, content, ⟨dir, above, node, location, hchain, hmem, hdest, hfile⟩, rfl⟩
  obtain ⟨stops, hstops, hroute⟩ := hchain.exists_route hunbroken
  obtain ⟨here, stops, rfl, rfl, rfl⟩ := List.map_eq_cons_iff.1 hstops
  rw [chainPath_cons, ← hroute.path_eq here rfl]
  exact hroute.item_mem_walk hmem (.file hdest hfile)

/-! ### Paths -/

/-- No two entries of a directory have one name. They would stand at one location, and the table has
one row for each. Sorting puts them in another order only. -/
theorem pairwise_listing (fs : FileSystem) (sorted : Bool) (dir : Location) :
    (fs.listing sorted dir).Pairwise fun a b => a.1 ≠ b.1 := by
  have hentries : (fs.entries dir).Pairwise fun a b => a.1 ≠ b.1 := by
    refine List.pairwise_filterMap.2 ((List.pairwise_map.1 fs.distinct).imp ?_)
    rintro ⟨location, node⟩ ⟨location', node'⟩ hne a ha b hb hsame
    -- Two entries with one name in one directory would stand at one location.
    cases location with
    | nil => cases ha
    | cons name parent =>
      cases location' with
      | nil => cases hb
      | cons name' parent' =>
        simp only [Option.ite_none_right_eq_some, Option.some.injEq] at ha hb
        obtain ⟨rfl, rfl⟩ := ha
        obtain ⟨rfl, rfl⟩ := hb
        exact hne (congrArg (· :: _) hsame)
  unfold listing
  split
  · exact (List.mergeSort_perm _ _).symm.pairwise hentries fun h => h.symm
  · exact hentries

/-- A file at an entry is what the entry leads to, or lies below it. In both cases its path begins
with that of the entry. -/
theorem file_of_mem_entryItems {here : Stop} {above : List Stop} {name : Name} {node : Node}
    {file : SourceFile} (hmem : (name, node) ∈ fs.entries here.location)
    (h : .file file ∈ fs.entryItems sorted here above (name, node)) :
    file.path = Path.join here.path name ∨
      ∃ next, fs.walkStep here above name node = .enter next ∧
        next.path = Path.join here.path name ∧
        .file file ∈ fs.walkFrom sorted next (here :: above) := by
  have hmeets := meets_walkStep above hmem
  unfold entryItems at h
  cases hstep : fs.walkStep here above name node with
  | emit item =>
    simp only [hstep, List.mem_singleton] at h
    rw [hstep, ← h] at hmeets
    cases hmeets
    exact .inl rfl
  | enter next =>
    simp only [hstep, List.mem_cons, reduceCtorEq, false_or] at h
    rw [hstep] at hmeets
    cases hmeets
    exact .inr ⟨_, rfl, rfl, h⟩

/-- Below a directory all paths begin with that of the directory and a slash. The induction follows
the walk, and each entry adds its name behind that slash. -/
theorem join_isPrefix_of_mem_walkFrom {here : Stop} {above : List Stop} {file : SourceFile} :
    .file file ∈ fs.walkFrom sorted here above → Path.join here.path [] <+: file.path := by
  induction here, above using walkFrom.induct fs sorted with
  | case1 here above ih =>
    intro h
    obtain ⟨name, node, hmem, hitem⟩ := mem_walkFrom_iff.1 h
    have hbegin : Path.join here.path [] <+: Path.join here.path name := by
      rw [join_eq_append here.path name]
      exact List.prefix_append _ _
    rcases file_of_mem_entryItems hmem hitem with hpath | ⟨next, hstep, hpath, hbelow⟩
    · rwa [hpath]
    · have hnext := ih name node (mem_listing.2 hmem) next hstep hbelow
      rw [hpath, join_join_nil _ (isName_of_mem_entries hmem)] at hnext
      exact hbegin.trans ((List.prefix_append _ _).trans hnext)

/-- The path of a file at an entry is that of the entry, or goes on with a slash behind it. So the
name of the entry can be read off the path. -/
theorem path_of_mem_entryItems {here : Stop} {above : List Stop} {name : Name} {node : Node}
    {file : SourceFile} (hmem : (name, node) ∈ fs.entries here.location)
    (h : .file file ∈ fs.entryItems sorted here above (name, node)) :
    ∃ tail, file.path = Path.join here.path [] ++ (name ++ tail) ∧ tail.head?.all (· == '/') := by
  rcases file_of_mem_entryItems hmem h with hpath | ⟨next, -, hpath, hbelow⟩
  · exact ⟨[], by rw [hpath, List.append_nil, ← join_eq_append], rfl⟩
  · have hnext := join_isPrefix_of_mem_walkFrom hbelow
    rw [hpath, join_join_nil _ (isName_of_mem_entries hmem)] at hnext
    obtain ⟨rest, hrest⟩ := hnext
    refine ⟨'/' :: rest, ?_, rfl⟩
    rw [← hrest, join_eq_append here.path name]
    simp

/-- Files at entries with different names have different paths. If the paths were the same, so would
be the names that can be read off them. -/
theorem path_ne_of_name_ne {here : Stop} {above : List Stop} {a b : Name × Node}
    (ha : a ∈ fs.entries here.location) (hb : b ∈ fs.entries here.location) (hne : a.1 ≠ b.1)
    {file file' : SourceFile} (hfile : .file file ∈ fs.entryItems sorted here above a)
    (hfile' : .file file' ∈ fs.entryItems sorted here above b) : file.path ≠ file'.path := by
  intro hsame
  obtain ⟨s, hs, hsHead⟩ := path_of_mem_entryItems ha hfile
  obtain ⟨t, ht, htHead⟩ := path_of_mem_entryItems hb hfile'
  have hslash {entry : Name × Node} (h : entry ∈ fs.entries here.location) : '/' ∉ entry.1 :=
    slash_not_mem_of_isName (isName_of_mem_entries h)
  rw [hs, ht] at hsame
  exact hne (name_eq_of_append_eq (hslash ha) (hslash hb) hsHead htHead
    (List.append_cancel_left hsame))

end FileSystem

end ImportCensus

import Mathlib
import ImportCensus.Proofs.CommandLine.Parsing
import ImportCensus.Proofs.FileSystem.Path
import ImportCensus.Proofs.Settings.File
import ImportCensus.Run

/-!
# `ImportCensus.Proofs.Settings.Effective`: the settings of a run

The settings of a run come from the flags, from at most one settings file and from the defaults.

* `chooses_iff`: `Chooses` has one rule for each way to come by a settings file, or by none. One of
  them applies, to one file.
* `exists_loads`: what is chosen is read, and if that fails nothing takes its place.
* `DiffersElsewhere.settingsFor_eq`: the contents of all other files do not matter.
* `overriddenBy_ofFlags`: which of flag, file and default wins, for each setting.
* `settingsFor_effective`: all of this for every command line that is accepted.
-/

set_option autoImplicit false

namespace ImportCensus

/-! ### Flags, files and defaults -/

/-- The settings in effect, by the flags of a command line and the assignments of a file. A flag
wins over the file, and the file over the default; a switch works in one direction only. -/
def effectiveSettings (flags : List Flag) (assignments : List (Text × SettingValue)) :
    Settings where
  sourceRoot := (valueOf? flags .sourceRoot).or (assignedPath? assignments .sourceRoot)
  targetRoot := (valueOf? flags .targetRoot).or (assignedPath? assignments .targetRoot)
  output := (valueOf? flags .output).or (assignedPath? assignments .output)
  format := (((valueOf? flags .format).bind ReportFormat.ofKeyword?).or
    (assignedFormat? assignments)).getD .csv
  openReport := (assignedTruth? assignments .openReport).getD true &&
    !decide (.thrown .noOpen ∈ flags)
  sortEntries := (assignedTruth? assignments .sortEntries).getD false ||
    decide (.thrown .sorted ∈ flags)
  parallel := (((valueOf? flags .parallel).bind truthOfWord?).or
    (assignedTruth? assignments .parallel)).getD true

/-- Flags override what is assigned, which overrides the defaults. The program first puts the
defaults into the settings of the file, and here all three are seen at once. -/
theorem overriddenBy_ofFlags (flags : List Flag) (assignments : List (Text × SettingValue)) :
    (Settings.ofAssignments assignments).overriddenBy (Request.ofFlags flags) =
      effectiveSettings flags assignments := by
  simp [Settings.overriddenBy, Settings.ofAssignments, Request.ofFlags, effectiveSettings,
    Option.getD_or]

namespace FileSystem

variable {fs : FileSystem}

/-! ### The file that is chosen -/

/-- `fs.LeadsToFile path`: a path leads to a file, over links if there are any. -/
def LeadsToFile (fs : FileSystem) (path : Text) : Prop :=
  ∃ location content, fs.locate path = .ok location ∧ fs.node? location = some (.file content)

/-- The test of a path says whether it leads to a file. A path that cannot be followed leads to
none, for whatever reason. -/
theorem isFile_iff {path : Text} : fs.isFile path = true ↔ fs.LeadsToFile path := by
  constructor
  · intro h
    unfold isFile at h
    split at h
    · next location hlocate =>
      split at h
      · next content hnode => exact ⟨location, content, hlocate, hnode⟩
      · cases h
    · cases h
  · rintro ⟨location, content, hlocate, hnode⟩
    simp [isFile, hlocate, hnode]

/-- The paths of the settings files that are looked for, the first choice first: the four standard
names in the working directory. Without a working directory there is nowhere to look. -/
def candidates (fs : FileSystem) : List Text :=
  match fs.workingDirectory with
  | none => []
  | some home =>
    [Path.join (display home) ".codefinder.toml".toList,
      Path.join (display home) "codefinder.toml".toList,
      Path.join (display home) ".codefinder.yml".toList,
      Path.join (display home) ".codefinder.yaml".toList]

/-- `fs.Chooses named chosen`: the settings file that is chosen, if there is one, where `named` is
the one that the command line names. Otherwise it is the first candidate that leads to a file. What
stands at an earlier candidate is passed over if it is a directory or a link without a target. -/
inductive Chooses (fs : FileSystem) : Option Text → Option Text → Prop
  | named {path : Text} : Chooses fs (some path) (some path)
  | found {before after : List Text} {path : Text} :
      fs.candidates = before ++ path :: after →
      (∀ earlier ∈ before, ¬ fs.LeadsToFile earlier) → fs.LeadsToFile path →
      Chooses fs none (some path)
  | nothing : (∀ path ∈ fs.candidates, ¬ fs.LeadsToFile path) → Chooses fs none none

/-- The settings file that a search of the working directory finds. Without a working directory
there is no search. -/
def standardFile? (fs : FileSystem) : Option Text :=
  fs.workingDirectory.bind fun home => fs.settingsFile? (display home)

/-- The search goes through the candidates, in their order, and takes the first that is a file. -/
theorem standardFile?_eq (fs : FileSystem) : fs.standardFile? = fs.candidates.find? fs.isFile := by
  unfold standardFile? candidates
  cases fs.workingDirectory with
  | none => rfl
  | some home => rfl

/-- The search ends at the first candidate that leads to a file. It tests each candidate for that,
so an earlier one that led to a file would have ended it. -/
theorem standardFile?_eq_some_iff {path : Text} :
    fs.standardFile? = some path ↔
      ∃ before after, fs.candidates = before ++ path :: after ∧
        (∀ earlier ∈ before, ¬ fs.LeadsToFile earlier) ∧ fs.LeadsToFile path := by
  rw [standardFile?_eq, List.find?_eq_some_iff_append, isFile_iff]
  simp only [Bool.not_eq_true', ← Bool.not_eq_true, isFile_iff]
  constructor
  · rintro ⟨hfile, before, after, hsplit, hbefore⟩
    exact ⟨before, after, hsplit, hbefore, hfile⟩
  · rintro ⟨before, after, hsplit, hbefore, hfile⟩
    exact ⟨hfile, before, after, hsplit, hbefore⟩

/-- The search finds nothing if none of the candidates leads to a file, and also if there are
none. -/
theorem standardFile?_eq_none_iff :
    fs.standardFile? = none ↔ ∀ path ∈ fs.candidates, ¬ fs.LeadsToFile path := by
  rw [standardFile?_eq, List.find?_eq_none]
  simp only [isFile_iff]

/-- **One settings file at most.** Exactly one choice is possible: the file that is named, and if
none is named what the search finds. -/
theorem chooses_iff {named chosen : Option Text} :
    fs.Chooses named chosen ↔ named.or fs.standardFile? = chosen := by
  constructor
  · rintro (_ | ⟨hsplit, hbefore, hfile⟩ | hnone)
    · rfl
    · exact standardFile?_eq_some_iff.2 ⟨_, _, hsplit, hbefore, hfile⟩
    · exact standardFile?_eq_none_iff.2 hnone
  · intro h
    -- A file that is named is chosen whether or not it is there.
    cases named with
    | some path =>
      cases h
      exact .named
    | none =>
      cases chosen with
      | none => exact .nothing (standardFile?_eq_none_iff.1 h)
      | some path =>
        obtain ⟨before, after, hsplit, hbefore, hfile⟩ := standardFile?_eq_some_iff.1 h
        exact .found hsplit hbefore hfile

/-! ### What comes of it -/

/-- What comes of a choice: the assignments of the file, none if there is no file, or the fault. It
is also a fault that there is no working directory in which a file could be looked for. -/
inductive Loads (fs : FileSystem) : Option Text → Except Fault (List (Text × SettingValue)) → Prop
  | defaults {home : Location} : fs.workingDirectory = some home → Loads fs none (.ok [])
  | nowhere : fs.workingDirectory = none → Loads fs none (.error .noWorkingDirectory)
  | file {path : Text} {outcome : Except Fault (List (Text × SettingValue))} :
      fs.ReadsAs path outcome → Loads fs (some path) outcome

/-- One of the rules applies at most. Both rules for no file speak of the working directory, and
there is one or not; and a file is read in one way. -/
theorem Loads.unique {chosen : Option Text}
    {first second : Except Fault (List (Text × SettingValue))} (hfirst : fs.Loads chosen first)
    (hsecond : fs.Loads chosen second) : first = second := by
  cases hfirst with
  | defaults hhome =>
    cases hsecond with
    | defaults => rfl
    | nowhere hnone => cases hhome.symm.trans hnone
  | nowhere hnone =>
    cases hsecond with
    | defaults hhome => cases hhome.symm.trans hnone
    | nowhere => rfl
  | file hreads =>
    cases hsecond with
    | file hagain => exact hreads.unique hagain

/-- The settings where no file is chosen. The working directory is asked for before anything is
searched, so without one they cannot be had. -/
def defaultsHere (fs : FileSystem) : Except Fault Settings :=
  fs.workingDirectory.elim (.error .noWorkingDirectory) fun _ => .ok {}

/-- The settings that a directory holds, if one of the standard names leads to a file there. A file
that is found but cannot be read is not passed over. -/
theorem result_findSettings (dir : Text) :
    (fs.findSettings dir).result =
      (fs.settingsFile? dir).elim (.ok {}) fun path => (fs.readSettings path).result := by
  unfold findSettings
  cases fs.settingsFile? dir with
  | none => rfl
  | some path => exact Traced.result_bind _ _

/-- The settings of a request, by the choice of a settings file. The two ways of the program, with a
file that is named and without, become one. -/
theorem result_settingsFor {request : Request} {chosen : Option Text}
    (h : fs.Chooses request.config chosen) :
    (fs.settingsFor request).result =
      (chosen.elim fs.defaultsHere fun path => (fs.readSettings path).result).map
        (·.overriddenBy request) := by
  obtain rfl := chooses_iff.1 h
  unfold settingsFor
  -- With a name, the working directory is not asked for.
  cases request.config with
  | some path =>
    dsimp only
    rw [bind_pure_comp, Traced.result_map]
    rfl
  | none =>
    rw [Option.none_or]
    unfold standardFile? defaultsHere
    cases fs.workingDirectory with
    | none => rfl
    | some home =>
      dsimp only
      rw [bind_pure_comp, Traced.result_map, result_findSettings]
      rfl

/-- Something comes of every choice: no case is left out by the rules. -/
theorem exists_loads (fs : FileSystem) (chosen : Option Text) :
    ∃ outcome, fs.Loads chosen outcome := by
  cases chosen with
  | none =>
    cases hhome : fs.workingDirectory with
    | none => exact ⟨_, .nowhere hhome⟩
    | some home => exact ⟨_, .defaults hhome⟩
  | some path =>
    obtain ⟨outcome, hreads, -⟩ := fs.exists_readsAs path
    exact ⟨outcome, .file hreads⟩

/-- What is chosen is loaded, and nothing else is if that fails. So a run never goes on with the
defaults because its settings file is broken. -/
theorem settingsFor_eq_of_loads {request : Request} {chosen : Option Text}
    {outcome : Except Fault (List (Text × SettingValue))}
    (hchosen : fs.Chooses request.config chosen) (hloads : fs.Loads chosen outcome) :
    (fs.settingsFor request).result = outcome.map fun assignments =>
      (Settings.ofAssignments assignments).overriddenBy request := by
  rw [result_settingsFor hchosen]
  cases hloads with
  | defaults hhome =>
    rw [Option.elim_none, defaultsHere, hhome]
    rfl
  | nowhere hnone =>
    rw [Option.elim_none, defaultsHere, hnone]
    rfl
  | @file path _ hreads =>
    -- The file is read in one way, so this is what comes of reading it.
    obtain ⟨found, hfound, hresult⟩ := fs.exists_readsAs path
    obtain rfl := hreads.unique hfound
    show (fs.readSettings path).result.map _ = _
    rw [hresult]
    cases outcome <;> rfl

/-! ### Other files -/

/-- `DiffersElsewhere fs other chosen`: the same nodes stand at the same locations, except that
files may have other contents. The file to which the chosen path leads has the same content. -/
structure DiffersElsewhere (fs other : FileSystem) (chosen : Option Text) : Prop where
  workingDirectory_eq : other.workingDirectory = fs.workingDirectory
  shape : SameShape fs other
  node?_eq : ∀ path location, chosen = some path → fs.locate path = .ok location →
    other.node? location = fs.node? location

section

variable {other : FileSystem} {chosen : Option Text} (h : DiffersElsewhere fs other chosen)

include h

/-- Contents do not matter to where a path leads. -/
theorem DiffersElsewhere.locate_eq (path : Text) : other.locate path = fs.locate path :=
  h.shape.locate_eq h.workingDirectory_eq path

/-- Contents do not matter to the choice of a settings file: a candidate has to lead to a file, and
that is a matter of the shape. -/
theorem DiffersElsewhere.standardFile?_eq : other.standardFile? = fs.standardFile? := by
  have hback : SameShape other fs := fun location => (h.shape location).symm
  -- A path leads to a file in one of the two if it does in the other, with another content perhaps.
  have hisFile : other.isFile = fs.isFile := by
    funext path
    rw [Bool.eq_iff_iff, isFile_iff, isFile_iff]
    unfold LeadsToFile
    rw [h.locate_eq path]
    constructor
    · rintro ⟨location, content, hlocate, hnode⟩
      obtain ⟨held, hnode⟩ := hback.node?_eq_file hnode
      exact ⟨location, held, hlocate, hnode⟩
    · rintro ⟨location, content, hlocate, hnode⟩
      obtain ⟨held, hnode⟩ := h.shape.node?_eq_file hnode
      exact ⟨location, held, hlocate, hnode⟩
  unfold standardFile? settingsFile?
  rw [hisFile, h.workingDirectory_eq]

/-- The file that is chosen has the same content, so it is read alike. -/
theorem DiffersElsewhere.read_eq {path : Text} (hpath : chosen = some path) :
    other.read path = fs.read path := by
  rw [FileSystem.read, FileSystem.read, h.locate_eq path]
  cases hlocate : fs.locate path with
  | error cause => rfl
  | ok location =>
    show other.contentAt location = fs.contentAt location
    unfold contentAt
    rw [h.node?_eq path location hpath hlocate]

/-- The settings are the same: the same file is chosen, and it says the same. -/
theorem DiffersElsewhere.settingsFor_eq {request : Request}
    (hchosen : fs.Chooses request.config chosen) :
    (other.settingsFor request).result = (fs.settingsFor request).result := by
  have hagain : other.Chooses request.config chosen := by
    rw [chooses_iff, h.standardFile?_eq]
    exact chooses_iff.1 hchosen
  rw [result_settingsFor hchosen, result_settingsFor hagain]
  cases hpath : chosen with
  | none =>
    rw [Option.elim_none, Option.elim_none, defaultsHere, defaultsHere, h.workingDirectory_eq]
  | some path =>
    show (other.readSettings path).result.map _ = (fs.readSettings path).result.map _
    rw [readSettings, readSettings, h.read_eq hpath]

end

/-! ### The settings of a command line -/

/-- **The settings of a run.** A command line that is accepted spells one list of flags, and:

1. there is exactly one choice of a settings file, the one that is named or else the first of the
   standard names that leads to a file;
2. what comes of it is its assignments, or the fault for which it cannot be read. It is read in the
   format that its extension stands for;
3. the fault is the result, and otherwise the settings are those of flags, assignments and defaults;
4. the contents of other files do not matter;
5. the flags can be written in any order, each with its value, and ask for the same. -/
theorem settingsFor_effective (fs : FileSystem) {words : List Text} {request : Request}
    (hparse : Request.parse words = .ok request) :
    ∃ flags chosen outcome,
      (∀ others, LineForm none words others ↔ others = flags) ∧
      (∀ other, fs.Chooses (valueOf? flags .config) other ↔ other = chosen) ∧
      (∀ other, fs.Loads chosen other ↔ other = outcome) ∧
      (fs.settingsFor request).result = outcome.map (effectiveSettings flags) ∧
      (∀ other, DiffersElsewhere fs other chosen →
        (other.settingsFor request).result = (fs.settingsFor request).result) ∧
      ∀ others, others.Perm flags →
        (∃ otherWords, LineForm none otherWords others) ∧
        ∀ otherWords, LineForm none otherWords others → Request.parse otherWords = .ok request := by
  obtain ⟨flags, hform, hacceptable, rfl⟩ := Request.parse_eq_ok_iff.1 hparse
  have hchosen : fs.Chooses (Request.ofFlags flags).config _ := chooses_iff.2 rfl
  obtain ⟨outcome, hloads⟩ := fs.exists_loads _
  -- The flags, the choice and what comes of it are each the only ones.
  refine ⟨flags, _, outcome, fun others => ⟨fun h => h.unique hform, fun h => h ▸ hform⟩,
    fun other => chooses_iff.trans eq_comm, fun other => ⟨fun h => h.unique hloads,
      fun h => h ▸ hloads⟩, ?_, fun other h => h.settingsFor_eq hchosen,
    fun others hperm => ⟨exists_lineForm others, fun otherWords hotherForm =>
      Request.parse_of_perm hacceptable hperm hotherForm⟩⟩
  rw [settingsFor_eq_of_loads hchosen hloads]
  simp only [overriddenBy_ofFlags]

/-- A project with two settings files. -/
def sampleProject : FileSystem where
  nodes :=
    [(["s".toList], .directory),
      (["A.java".toList, "s".toList], .file (.ok (Text.encode "package p;".toList))),
      (["E.java".toList, "s".toList], .file (.ok (Text.encode "import p.A;".toList))),
      ([".codefinder.toml".toList], .file (.ok (Text.encode "parallel = false\n".toList))),
      (["q.yml".toList],
        .file (.ok (Text.encode "target_root: s\nopen_report: false\n".toList)))]
  workingDirectory := some []
  distinct := by decide
  named := by decide
  storable := by decide
  standing := by simp
  rooted := by
    intro name dir h
    simp at h
    rcases h with h | h | h | h | h
    all_goals first | exact .inl h.2 | exact .inr (by simp [h.2])

/-- A command line that names a settings file. -/
def sampleWords : List Text :=
  ["-vc".toList, "q.yml".toList, "--source-root=s".toList, "--sorted".toList]

/-- The flags that it spells. -/
def sampleFlags : List Flag :=
  [.thrown .verbose, .given .config "q.yml".toList, .given .sourceRoot ['s'], .thrown .sorted]

/-- The words spell these flags. The first of them holds a switch and the letter of a parameter,
whose value is the second word. -/
theorem lineForm_sampleWords : LineForm none sampleWords sampleFlags := by
  have hv : shortAction? 'v' = some (.throwSwitch .verbose) := by decide
  have hc : shortAction? 'c' = some (.set .config) := by decide
  have hsource : longAction? "source-root".toList = some (.set .sourceRoot) := by decide
  have hsorted : longAction? "sorted".toList = some (.throwSwitch .sorted) := by decide
  exact .option (.shorts (by decide) (.thrown hv (.awaiting hc))) (.value (by decide)
    (.option (.assigned hsource) (.option (.thrown hsorted) .nil)))

/-- The flags are acceptable, so the command line is accepted. -/
theorem parse_sampleWords : Request.parse sampleWords = .ok (Request.ofFlags sampleFlags) :=
  Request.parse_eq_ok_iff.2 ⟨_, lineForm_sampleWords, ⟨by decide, by decide⟩, rfl⟩

/-- The named file is found in the working directory, which is the root. -/
theorem locate_sampleProject : sampleProject.locate "q.yml".toList = .ok ["q.yml".toList] := by
  cbv

/-- The named settings file of the project assigns a path and a truth value, both of which fit. -/
theorem readsAs_sampleProject :
    sampleProject.ReadsAs "q.yml".toList
      (.ok [("target_root".toList, ⟨some (some ['s']), some ['s'], none⟩),
        ("open_report".toList,
          ⟨some (some "false".toList), some "false".toList, some false⟩)]) := by
  have hread : sampleProject.read "q.yml".toList =
      .ok (Text.encode "target_root: s\nopen_report: false\n".toList) := by
    rw [FileSystem.read, locate_sampleProject]
    rfl
  have hext : HasYamlExtension "q.yml".toList :=
    .inl ⟨[], ['q'], [], by decide, by decide, List.forall_mem_nil _⟩
  refine .valid hread (Text.decode?_encode _) (.yaml hext (by decide +kernel)) ⟨by decide, ?_⟩
  simp only [List.forall_mem_cons]
  exact ⟨⟨.targetRoot, by decide, by decide⟩, ⟨.openReport, by decide, by decide⟩,
    List.forall_mem_nil _⟩

/-- A project in which the first two of the standard names lead to no file: one is a directory, and
one is a link whose target is missing. The third is a link to a file with another name. -/
def probedProject : FileSystem where
  nodes :=
    [([".codefinder.toml".toList], .directory),
      (["codefinder.toml".toList], .link "gone".toList),
      ([".codefinder.yml".toList], .link "team.toml".toList),
      ([".codefinder.yaml".toList], .file (.ok (Text.encode "sort_entries: true\n".toList))),
      (["team.toml".toList],
        .file (.ok (Text.encode "output: a.csv\nparallel: false\n".toList)))]
  workingDirectory := some []
  distinct := by decide
  named := by decide
  storable := by decide
  standing := by simp
  rooted := by
    intro name dir h
    simp at h
    rcases h with h | h | h | h | h <;> exact .inl h.2

/-- A command line that names no settings file. -/
def probingWords : List Text :=
  ["--no-open".toList, "--output".toList, "o.json".toList, "--format=json".toList]

/-- The flags that it spells. -/
def probingFlags : List Flag :=
  [.thrown .noOpen, .given .output "o.json".toList, .given .format "json".toList]

/-- This command line names no settings file, and its flags are acceptable. -/
theorem parse_probingWords : Request.parse probingWords = .ok (Request.ofFlags probingFlags) ∧
    LineForm none probingWords probingFlags := by
  have hnoOpen : longAction? "no-open".toList = some (.throwSwitch .noOpen) := by decide
  have houtput : longAction? "output".toList = some (.set .output) := by decide
  have hformat : longAction? "format".toList = some (.set .format) := by decide
  have hform : LineForm none probingWords probingFlags :=
    .option (.thrown hnoOpen) (.option (.awaiting houtput) (.value (by decide)
      (.option (.assigned hformat) .nil)))
  exact ⟨Request.parse_eq_ok_iff.2 ⟨_, hform, ⟨by decide, by decide⟩, rfl⟩, hform⟩

/-- The third candidate is chosen. Neither a directory nor a link without a target is a file, and
what the fourth candidate holds does not come into it. -/
theorem chooses_probedProject :
    probedProject.Chooses none (some "/.codefinder.yml".toList) := by
  have hdirectory : probedProject.isFile "/.codefinder.toml".toList = false := by cbv
  have hdangling : probedProject.isFile "/codefinder.toml".toList = false := by cbv
  have hfile : probedProject.isFile "/.codefinder.yml".toList = true := by cbv
  have hsplit : probedProject.candidates =
      ["/.codefinder.toml".toList, "/codefinder.toml".toList] ++
        "/.codefinder.yml".toList :: ["/.codefinder.yaml".toList] := by
    decide
  refine .found hsplit (List.forall_mem_cons.2 ⟨?_, List.forall_mem_singleton.2 ?_⟩)
    (isFile_iff.1 hfile)
  · rw [← isFile_iff, hdirectory]
    exact Bool.false_ne_true
  · rw [← isFile_iff, hdangling]
    exact Bool.false_ne_true

/-- The chosen file is read as YAML: the name by which it was found decides, and not the one that
the link leads to. -/
theorem readsAs_probedProject :
    probedProject.ReadsAs "/.codefinder.yml".toList
      (.ok [("output".toList, ⟨some (some "a.csv".toList), some "a.csv".toList, none⟩),
        ("parallel".toList,
          ⟨some (some "false".toList), some "false".toList, some false⟩)]) := by
  have hlocate : probedProject.locate "/.codefinder.yml".toList = .ok ["team.toml".toList] := by
    cbv
  have hread : probedProject.read "/.codefinder.yml".toList =
      .ok (Text.encode "output: a.csv\nparallel: false\n".toList) := by
    rw [FileSystem.read, hlocate]
    rfl
  have hext : HasYamlExtension "/.codefinder.yml".toList :=
    .inl ⟨[[]], ".codefinder".toList, [], by decide, by decide, List.forall_mem_nil _⟩
  refine .valid hread (Text.decode?_encode _) (.yaml hext (by decide +kernel)) ⟨by decide, ?_⟩
  simp only [List.forall_mem_cons]
  exact ⟨⟨.output, by decide, by decide⟩, ⟨.parallel, by decide, by decide⟩,
    List.forall_mem_nil _⟩

/-- With a settings file that is named, one setting is from the flags, one is from that file, and
the file with a standard name does not count. Without it the standard names are gone through, and a
flag overrides what the file that is found assigns. -/
theorem settingsFor_sampleWords :
    (Request.parse sampleWords = .ok (Request.ofFlags sampleFlags) ∧
      (sampleProject.settingsFor (Request.ofFlags sampleFlags)).result =
        .ok {
          sourceRoot := some ['s'], targetRoot := some ['s'], openReport := false
          sortEntries := true }) ∧
    Request.parse probingWords = .ok (Request.ofFlags probingFlags) ∧
      (probedProject.settingsFor (Request.ofFlags probingFlags)).result =
        .ok {
          output := some "o.json".toList, format := .json, openReport := false
          parallel := false } := by
  constructor
  · obtain ⟨flags, chosen, outcome, hflags, hchosen, hloads, hresult, -⟩ :=
      settingsFor_effective sampleProject parse_sampleWords
    obtain rfl := (hflags _).1 lineForm_sampleWords
    obtain rfl := (hchosen (some "q.yml".toList)).1 .named
    obtain rfl := (hloads _).1 (.file readsAs_sampleProject)
    exact ⟨parse_sampleWords, hresult⟩
  · obtain ⟨flags, chosen, outcome, hflags, hchosen, hloads, hresult, -⟩ :=
      settingsFor_effective probedProject parse_probingWords.1
    obtain rfl := (hflags _).1 parse_probingWords.2
    obtain rfl := (hchosen _).1 chooses_probedProject
    obtain rfl := (hloads _).1 (.file readsAs_probedProject)
    exact ⟨parse_probingWords.1, hresult⟩

end FileSystem

end ImportCensus

import ImportCensus.Proofs.Settings.Assignments
import ImportCensus.Proofs.Text.Search
import ImportCensus.Proofs.Traced
import ImportCensus.Settings.File

/-!
# `ImportCensus.Proofs.Settings.File`: what is read from a settings file

A settings file gives assignments. Their format goes by the extension of the path: `HasExtension`
says what an extension is without the reader's way of finding it, from the back.

* `isYamlPath_iff`: a file is YAML exactly if its extension is one of the two of YAML.
* `Settings.ofText?_eq_some_iff`: a text is accepted exactly if it is a document of its format whose
  assignments are acceptable.
* `exists_readsAs`: `ReadsAs` has one rule for each way in which a file can fail to be read, and one
  for success. One of them applies to every path, and it gives the result of reading.
-/

set_option autoImplicit false

namespace ImportCensus

/-! ### Extensions -/

/-- `HasExtension path ext`: of the segments of the path, the last that is neither empty nor a
single dot is a stem, which is not empty, and behind a dot the extension. -/
def HasExtension (path ext : Text) : Prop :=
  ∃ front stem back, path.segments '/' = front ++ (stem ++ '.' :: ext) :: back ∧ stem ≠ [] ∧
    ∀ segment ∈ back, segment = [] ∨ segment = ['.']

/-- The last member of a list that passes a test, and what stands around it. The reader filters the
segments and takes the last, and the rules speak of what stands behind it. -/
theorem getLast?_filter_eq_some_iff {α : Type} {p : α → Bool} {xs : List α} {x : α} :
    (xs.filter p).getLast? = some x ↔
      p x = true ∧ ∃ front back, xs = front ++ x :: back ∧ ∀ y ∈ back, p y = false := by
  rw [List.getLast?_eq_head?_reverse, ← List.filter_reverse, List.head?_filter,
    List.find?_eq_some_iff_append]
  refine and_congr_right fun _ => ?_
  constructor
  · rintro ⟨back, front, hsplit, hback⟩
    refine ⟨front.reverse, back.reverse, ?_, fun y hy => ?_⟩
    · rw [← List.reverse_reverse xs, hsplit]
      simp
    · simpa using hback y (List.mem_reverse.1 hy)
  · rintro ⟨front, back, rfl, hback⟩
    exact ⟨back.reverse, front.reverse, by simp, fun y hy => by
      simpa using hback y (List.mem_reverse.1 hy)⟩

/-- The extension of a name, which has its last dot behind the stem. A dot in front does not begin
an extension, and the name of the directory above has none. -/
theorem extensionOfName?_append (stem : Name) {ext : Name} (hdot : '.' ∉ ext) :
    Path.extensionOfName? (stem ++ '.' :: ext) =
      if stem = [] ∨ stem ++ '.' :: ext = ['.', '.'] then none else some ext := by
  have hback : '.' ∉ ext.reverse := fun hmem => hdot (List.mem_reverse.1 hmem)
  have hreverse : (stem ++ '.' :: ext).reverse = ext.reverse ++ '.' :: stem.reverse := by simp
  rw [Path.extensionOfName?, hreverse, Text.takeWhile_ne_append hback,
    Text.dropWhile_ne_append hback, List.reverse_reverse]
  simp

/-- A name without a dot has no extension. -/
theorem extensionOfName?_of_not_mem {name : Name} (h : '.' ∉ name) :
    Path.extensionOfName? name = none := by
  have hall : ∀ c ∈ name.reverse, (c != '.') = true := fun c hc =>
    bne_iff_ne.2 fun heq => h (heq ▸ List.mem_reverse.1 hc)
  rw [Path.extensionOfName?, List.dropWhile_eq_nil_iff.2 hall]
  simp

/-- The extension of a name is what stands behind its last dot, if something stands in front. It is
only asked about extensions that have characters but no dot, as those of settings files. -/
theorem extensionOfName?_eq_some_iff {name ext : Name} (hne : ext ≠ []) (hdot : '.' ∉ ext) :
    Path.extensionOfName? name = some ext ↔ ∃ stem, stem ≠ [] ∧ name = stem ++ '.' :: ext := by
  constructor
  · intro h
    by_cases hmem : '.' ∈ name
    · obtain ⟨back, front, hsplit, hback⟩ := List.eq_append_cons_of_mem (List.mem_reverse.2 hmem)
      obtain rfl : name = front.reverse ++ '.' :: back.reverse := by
        rw [← List.reverse_reverse name, hsplit]
        simp
      rw [extensionOfName?_append _ fun h => hback (List.mem_reverse.1 h)] at h
      obtain ⟨hlong, hext⟩ := Option.ite_none_left_eq_some.1 h
      exact ⟨_, fun hstem => hlong (.inl hstem), by rw [Option.some.inj hext]⟩
    · rw [extensionOfName?_of_not_mem hmem] at h
      cases h
  · rintro ⟨stem, hstem, rfl⟩
    -- Two dots alone would be a stem with an empty extension.
    have hdots : stem ++ '.' :: ext ≠ ['.', '.'] := by
      intro heq
      have hlength := congrArg List.length heq
      have hstemLength := List.length_pos_iff.2 hstem
      have hextLength := List.length_pos_iff.2 hne
      simp only [List.length_append, List.length_cons, List.length_nil] at hlength
      omega
    rw [extensionOfName?_append stem hdot, if_neg (by simp [hstem, hdots])]

/-- The extension of a path is found where the rule says. The reader takes the last segment that
counts and then its last dot, both from the back. -/
theorem extension?_eq_some_iff {path ext : Text} (hne : ext ≠ []) (hdot : '.' ∉ ext) :
    Path.extension? path = some ext ↔ HasExtension path ext := by
  rw [Path.extension?, Option.bind_eq_some_iff]
  simp only [getLast?_filter_eq_some_iff, extensionOfName?_eq_some_iff hne hdot]
  -- The segments that are passed over from the back.
  have hskipped (segment : Text) : decide (segment ≠ [] ∧ segment ≠ ['.']) = false ↔
      segment = [] ∨ segment = ['.'] := by
    rw [decide_eq_false_iff_not]
    tauto
  constructor
  · rintro ⟨name, ⟨-, front, back, hsplit, hback⟩, stem, hstem, rfl⟩
    exact ⟨front, stem, back, hsplit, hstem, fun segment hmem =>
      (hskipped segment).1 (hback segment hmem)⟩
  · rintro ⟨front, stem, back, hsplit, hstem, hback⟩
    have hkept : decide (stem ++ '.' :: ext ≠ [] ∧ stem ++ '.' :: ext ≠ ['.']) = true := by
      simp [List.append_eq_singleton_iff, hstem]
    exact ⟨_, ⟨hkept, front, back, hsplit, fun segment hmem =>
      (hskipped segment).2 (hback segment hmem)⟩, stem, hstem, rfl⟩

/-- A path with one of the two extensions of YAML, in lower case. -/
def HasYamlExtension (path : Text) : Prop :=
  HasExtension path "yml".toList ∨ HasExtension path "yaml".toList

/-- **Which files are YAML.** A file is read as YAML exactly if its extension is `yml` or `yaml`.
Neither of them holds a dot, so both can be looked for as extensions of the last segment. -/
theorem isYamlPath_iff {path : Text} : isYamlPath path = true ↔ HasYamlExtension path := by
  unfold HasYamlExtension
  rw [← extension?_eq_some_iff (by decide) (by decide),
    ← extension?_eq_some_iff (by decide) (by decide), isYamlPath]
  cases Path.extension? path with
  | none => simp
  | some ext => simp [yamlExtensions]

/-! ### Documents -/

/-- The assignments in a TOML document. -/
def Toml.assignments? (document : Text) : Option (List (Text × SettingValue)) :=
  (Toml.read? document).map fun assignments =>
    assignments.map fun assignment => (assignment.key, assignment.value.setting)

/-- The assignments in a YAML document. A blank document has none. -/
def Yaml.assignments? (document : Text) : Option (List (Text × SettingValue)) :=
  if document.isBlank then some []
  else
    (Yaml.read? document).map fun entries =>
      entries.map fun (key, value) => (key.content, value.setting)

/-- `Says path text assignments`: what the text of the file at a path assigns, by the format that
its extension stands for. -/
inductive Says (path text : Text) : List (Text × SettingValue) → Prop
  | yaml {assignments : List (Text × SettingValue)} :
      HasYamlExtension path → Yaml.assignments? text = some assignments →
      Says path text assignments
  | toml {assignments : List (Text × SettingValue)} :
      ¬ HasYamlExtension path → Toml.assignments? text = some assignments →
      Says path text assignments

/-- What a text says is what the reader of its format hands over. The format is chosen by the path
alone, and the other reader is not tried. -/
theorem says_iff {path text : Text} {assignments : List (Text × SettingValue)} :
    Says path text assignments ↔
      (if isYamlPath path then Yaml.assignments? text else Toml.assignments? text) =
        some assignments := by
  constructor
  · rintro (⟨hyaml, h⟩ | ⟨hnot, h⟩)
    · rw [if_pos (isYamlPath_iff.2 hyaml)]
      exact h
    · rw [if_neg (isYamlPath_iff.not.2 hnot)]
      exact h
  · intro h
    split at h
    · next hyaml => exact .yaml (isYamlPath_iff.1 hyaml) h
    · next hnot => exact .toml (isYamlPath_iff.not.1 hnot) h

namespace Settings

/-- Settings are made of a TOML document in two steps: it is read, and its assignments are carried
out. -/
theorem ofToml?_eq (document : Text) :
    ofToml? document = (Toml.assignments? document).bind ofAssignments? := by
  rw [ofToml?, Toml.assignments?, Option.bind_map]
  rfl

/-- The same goes for YAML, where a blank document assigns nothing. -/
theorem ofYaml?_eq (document : Text) :
    ofYaml? document = (Yaml.assignments? document).bind ofAssignments? := by
  unfold ofYaml? Yaml.assignments?
  split
  · rfl
  · rw [Option.bind_map]
    rfl

/-- A text is accepted if it is a document of its format and its assignments are acceptable. Then
the settings are what these make of the defaults. -/
theorem ofText?_eq_some_iff {path text : Text} {settings : Settings} :
    ofText? path text = some settings ↔
      ∃ assignments, Says path text assignments ∧ AreAssignable assignments ∧
        ofAssignments assignments = settings := by
  simp only [says_iff, ← ofAssignments?_eq_some_iff]
  unfold ofText?
  split
  · rw [ofYaml?_eq, Option.bind_eq_some_iff]
  · rw [ofToml?_eq, Option.bind_eq_some_iff]

end Settings

/-! ### Files -/

namespace FileSystem

variable {fs : FileSystem} {path : Text}

/-- What comes of reading a settings file: its assignments, or the fault. The rules are in the order
of the checks, and each asks the checks in front of it to succeed. -/
inductive ReadsAs (fs : FileSystem) (path : Text) :
    Except Fault (List (Text × SettingValue)) → Prop
  | unreadable {cause : OsError} :
      fs.read path = .error cause → ReadsAs fs path (.error (.unreadable path cause))
  | notUtf8 {bytes : ByteArray} :
      fs.read path = .ok bytes → Text.decode? bytes = none →
      ReadsAs fs path (.error (.unreadable path .notUtf8))
  | invalid {bytes : ByteArray} {text : Text} :
      fs.read path = .ok bytes → Text.decode? bytes = some text →
      (∀ assignments, Says path text assignments → ¬ AreAssignable assignments) →
      ReadsAs fs path (.error (.invalidSettings path))
  | valid {bytes : ByteArray} {text : Text} {assignments : List (Text × SettingValue)} :
      fs.read path = .ok bytes → Text.decode? bytes = some text → Says path text assignments →
      AreAssignable assignments → ReadsAs fs path (.ok assignments)

/-- One of the rules applies at most, since each check has one outcome for a file. -/
theorem ReadsAs.unique {first second : Except Fault (List (Text × SettingValue))}
    (hfirst : fs.ReadsAs path first) (hsecond : fs.ReadsAs path second) : first = second := by
  cases hfirst <;> cases hsecond <;> simp_all [says_iff]

/-- What comes of reading a settings file is what one of the rules says. So no file is left out by
the rules, and success and each fault have just the causes that they name. -/
theorem exists_readsAs (fs : FileSystem) (path : Text) :
    ∃ outcome, fs.ReadsAs path outcome ∧
      (fs.readSettings path).result = outcome.map Settings.ofAssignments := by
  -- The checks in their order: the bytes, their encoding, and what the text says.
  unfold readSettings
  split
  · next cause hread => exact ⟨_, .unreadable hread, rfl⟩
  · next bytes hread =>
    split
    · next hdecode => exact ⟨_, .notUtf8 hread hdecode, rfl⟩
    · next text hdecode =>
      split
      · next hnone =>
        refine ⟨_, .invalid hread hdecode fun assignments hsays hassignable => ?_, rfl⟩
        cases hnone.symm.trans (Settings.ofText?_eq_some_iff.2 ⟨_, hsays, hassignable, rfl⟩)
      · next settings hsome =>
        obtain ⟨assignments, hsays, hassignable, rfl⟩ := Settings.ofText?_eq_some_iff.1 hsome
        exact ⟨_, .valid hread hdecode hsays hassignable, rfl⟩

end FileSystem

end ImportCensus

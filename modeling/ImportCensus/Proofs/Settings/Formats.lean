import Mathlib
import ImportCensus.Proofs.Settings.File
import ImportCensus.Proofs.Settings.TomlDocuments
import ImportCensus.Proofs.Settings.YamlDocuments

/-!
# `ImportCensus.Proofs.Settings.Formats`: both formats say the same

The readers of the two formats hand over different values for the same literal: a truth value in
YAML could be a path as well. Where paths and the format are strings, that does not matter, and what
is written decides alone which settings are made of the defaults.

* `ofAssignments?_eq_some_iff_acceptable`: when literals are accepted, and what they change.
* `Toml.assignments?_isDocument`, `Yaml.assignments?_isDocument`: what the readers hand over.
* `readSettings_of_holds`: so files with the same assignments in any order and in either format are
  read alike.
-/

set_option autoImplicit false

namespace ImportCensus

/-! ### What is written -/

/-- Tests for a key whose value is a string. The others have truth values. -/
def SettingKey.isTextual : SettingKey → Bool
  | sourceRoot | targetRoot | output | format => true
  | openReport | sortEntries | parallel => false

/-- The textual keys are given strings. A truth value could be taken for a path in YAML and never in
TOML, so this is where the two formats would differ. -/
def TextsAreStrings (assignments : List Assignment) : Prop :=
  ∀ assignment ∈ assignments, ∀ key : SettingKey, key.name = assignment.key →
    key.isTextual = true → ∃ content, assignment.value = .string content

/-- What assignments have to be like for a settings file to be accepted. No reader and no format
comes into it. -/
structure Acceptable (assignments : List Assignment) : Prop where
  nodup : (assignments.map Assignment.key).Nodup
  known : ∀ assignment ∈ assignments, ∃ key : SettingKey, key.name = assignment.key
  format : ∀ assignment ∈ assignments, SettingKey.format.name = assignment.key →
    assignment.value = .string "csv".toList ∨ assignment.value = .string "json".toList
  truths : ∀ assignment ∈ assignments, ∀ key : SettingKey, key.name = assignment.key →
    key.isTextual = false → ∃ truth, assignment.value = .boolean truth

/-- The value of a setting as it could be written, if there is one. -/
def Settings.literal? (settings : Settings) : SettingKey → Option Literal
  | .sourceRoot => settings.sourceRoot.map .string
  | .targetRoot => settings.targetRoot.map .string
  | .output => settings.output.map .string
  | .format => some (.string settings.format.keyword)
  | .openReport => some (.boolean settings.openReport)
  | .sortEntries => some (.boolean settings.sortEntries)
  | .parallel => some (.boolean settings.parallel)

/-- The settings are the defaults with the written values in the place of some of them. -/
structure DefaultsWith (assignments : List Assignment) (settings : Settings) : Prop where
  written : ∀ assignment ∈ assignments, ∀ key : SettingKey, key.name = assignment.key →
    settings.literal? key = some assignment.value
  unwritten : ∀ key : SettingKey, key.name ∉ assignments.map Assignment.key →
    settings.literal? key = ({} : Settings).literal? key

/-! ### What it makes of the defaults -/

/-- No two formats have the same keyword. -/
theorem ReportFormat.keyword_injective {format other : ReportFormat}
    (h : format.keyword = other.keyword) : format = other := by
  cases format <;> cases other <;> first | rfl | exact absurd h (by decide)

/-- Settings are the same if they could be written in the same way. So it is enough to know the
value of each key as a literal. -/
theorem Settings.eq_of_literal? {settings other : Settings}
    (h : ∀ key, settings.literal? key = other.literal? key) : settings = other := by
  have hpath {path path' : Option Text} (heq : path.map Literal.string = path'.map .string) :
      path = path' := Option.map_injective (fun _ _ h => Literal.string.inj h) heq
  have htruth {truth truth' : Bool} (heq : some (Literal.boolean truth) = some (.boolean truth')) :
      truth = truth' := Literal.boolean.inj (Option.some.inj heq)
  have hformat := Literal.string.inj (Option.some.inj (h .format))
  rw [Settings.mk.injEq]
  exact ⟨hpath (h .sourceRoot), hpath (h .targetRoot), hpath (h .output),
    ReportFormat.keyword_injective hformat, htruth (h .openReport), htruth (h .sortEntries),
    htruth (h .parallel)⟩

variable {assignments : List Assignment}

/-- Nothing is left open by what is written and by the defaults: each key is either assigned or
not. -/
theorem DefaultsWith.unique {settings other : Settings} (h : DefaultsWith assignments settings)
    (hother : DefaultsWith assignments other) : settings = other := by
  refine Settings.eq_of_literal? fun key => ?_
  by_cases hmem : key.name ∈ assignments.map Assignment.key
  · obtain ⟨assignment, hassignment, hkey⟩ := List.mem_map.1 hmem
    rw [h.written assignment hassignment key hkey.symm,
      hother.written assignment hassignment key hkey.symm]
  · rw [h.unwritten key hmem, hother.unwritten key hmem]

/-- What a reader may hand over for a literal: a string stands for itself as a path and as a word,
and a truth value stands for itself at least. -/
def Literal.IsReadAs : Literal → SettingValue → Prop
  | string content, value => value = ⟨some (some content), some content, none⟩
  | boolean truth, value => value.truth? = some truth

/-- The reader of TOML hands over the literal itself. -/
theorem Literal.isReadAs_setting (literal : Literal) : literal.IsReadAs literal.setting := by
  cases literal <;> rfl

/-- The reader of YAML hands over the text of a truth value as well, which is what makes it a
possible path. -/
theorem Literal.isReadAs_scalar (literal : Literal) : literal.IsReadAs literal.scalar.setting := by
  cases literal with
  | string content => rfl
  | boolean truth => cases truth <;> rfl

/-- The look-up of a keyword finds the format that has it. -/
theorem ReportFormat.ofKeyword?_eq_some_iff {word : Text} {format : ReportFormat} :
    ofKeyword? word = some format ↔ format.keyword = word := by
  constructor
  · intro h
    simpa using List.find?_some h
  · rintro rfl
    cases format <;> decide

section

variable {key : SettingKey} {literal : Literal} {value : SettingValue}

/-- Which literals fit a key, if those of a textual key are strings. Under this condition it does
not matter what else a reader could have handed over for a truth value. -/
theorem accepts_iff (h : literal.IsReadAs value)
    (htext : key.isTextual = true → ∃ content, literal = .string content) :
    key.accepts value = true ↔
      (key = .format → literal = .string "csv".toList ∨ literal = .string "json".toList) ∧
        (key.isTextual = false → ∃ truth, literal = .boolean truth) := by
  cases literal with
  | string content =>
    obtain rfl : value = _ := h
    have hformat : (ReportFormat.ofKeyword? content).isSome = true ↔
        content = "csv".toList ∨ content = "json".toList := by
      simp only [Option.isSome_iff_exists, ReportFormat.ofKeyword?_eq_some_iff]
      constructor
      · rintro ⟨format, rfl⟩
        cases format
        · exact .inl rfl
        · exact .inr rfl
      · rintro (rfl | rfl)
        · exact ⟨.csv, rfl⟩
        · exact ⟨.json, rfl⟩
    cases key with
    | format => simpa [SettingKey.accepts, SettingKey.isTextual] using hformat
    | sourceRoot | targetRoot | output | openReport | sortEntries | parallel =>
      simp [SettingKey.accepts, SettingKey.isTextual]
  | boolean truth =>
    have htruth : value.truth? = some truth := h
    cases key with
    | sourceRoot | targetRoot | output | format =>
      -- These keys are given strings.
      obtain ⟨content, hcontent⟩ := htext rfl
      cases hcontent
    | openReport | sortEntries | parallel => simp [SettingKey.accepts, htruth]

/-- A key has the literal that is assigned to it, however the reader hands it over. -/
theorem literal?_ofAssignments {values : List (Text × SettingValue)} (h : literal.IsReadAs value)
    (htext : key.isTextual = true → ∃ content, literal = .string content)
    (haccepts : key.accepts value = true) (hassigned : assigned? values key = some value) :
    (Settings.ofAssignments values).literal? key = some literal := by
  cases literal with
  | string content =>
    obtain rfl : value = _ := h
    cases key with
    | sourceRoot | targetRoot | output =>
      simp [Settings.literal?, Settings.ofAssignments, assignedPath?, hassigned]
    | format =>
      obtain ⟨format, hformat⟩ := Option.isSome_iff_exists.1 haccepts
      have hkeyword := ReportFormat.ofKeyword?_eq_some_iff.1 hformat
      have hassignedFormat : assignedFormat? values = some format := by
        rw [assignedFormat?, hassigned]
        exact hformat
      simp [Settings.literal?, Settings.ofAssignments, hassignedFormat, hkeyword]
    | openReport | sortEntries | parallel =>
      -- No string is taken for a truth value.
      cases haccepts
  | boolean truth =>
    have htruth : value.truth? = some truth := h
    cases key with
    | sourceRoot | targetRoot | output | format =>
      obtain ⟨content, hcontent⟩ := htext rfl
      cases hcontent
    | openReport | sortEntries | parallel =>
      simp [Settings.literal?, Settings.ofAssignments, assignedTruth?, hassigned, htruth]

/-- A key to which nothing is assigned has its default, whatever the others have. -/
theorem literal?_ofAssignments_of_none {values : List (Text × SettingValue)}
    (hassigned : assigned? values key = none) :
    (Settings.ofAssignments values).literal? key = ({} : Settings).literal? key := by
  cases key <;> simp [Settings.literal?, Settings.ofAssignments, assignedPath?, assignedFormat?,
    assignedTruth?, hassigned]

end

section

/-- What a reader hands over for an assignment. -/
def Assignment.readBy (read : Literal → SettingValue) (assignment : Assignment) :
    Text × SettingValue :=
  (assignment.key, read assignment.value)

variable {read : Literal → SettingValue}
  (hread : ∀ literal : Literal, literal.IsReadAs (read literal))
  (htexts : TextsAreStrings assignments)

/-- Reading leaves the keys of assignments as they are. -/
theorem map_fst_readBy (read : Literal → SettingValue) (assignments : List Assignment) :
    (assignments.map (Assignment.readBy read)).map Prod.fst = assignments.map Assignment.key := by
  rw [List.map_map]
  rfl

include hread htexts

/-- What a reader hands over is accepted exactly if what is written is acceptable. This is said for
any reader of literals, so it is shown once for the two formats. -/
theorem areAssignable_iff_acceptable :
    AreAssignable (assignments.map (Assignment.readBy read)) ↔ Acceptable assignments := by
  have haccepts {assignment : Assignment} (hmem : assignment ∈ assignments) {key : SettingKey}
      (hkey : key.name = assignment.key) :=
    accepts_iff (hread assignment.value) (htexts assignment hmem key hkey)
  constructor
  · rintro ⟨hnodup, hall⟩
    rw [map_fst_readBy] at hnodup
    -- What is read fits some key, and the name tells which.
    have hfits {assignment : Assignment} (hmem : assignment ∈ assignments) :
        ∃ key : SettingKey, key.name = assignment.key ∧
          key.accepts (read assignment.value) = true :=
      hall (assignment.readBy read) (List.mem_map_of_mem hmem)
    refine ⟨hnodup, fun assignment hmem => ?_, fun assignment hmem hformat => ?_,
      fun assignment hmem key hkey htextual => ?_⟩
    · obtain ⟨key, hkey, -⟩ := hfits hmem
      exact ⟨key, hkey⟩
    · -- The key that has the name is the only one.
      obtain ⟨key, hkey, hvalue⟩ := hfits hmem
      exact ((haccepts hmem hkey).1 hvalue).1 (SettingKey.name_injective (hkey.trans hformat.symm))
    · obtain ⟨key', hkey', hvalue⟩ := hfits hmem
      obtain rfl := SettingKey.name_injective (hkey'.trans hkey.symm)
      exact ((haccepts hmem hkey').1 hvalue).2 htextual
  · -- The other way round, the condition on formats is only about the key of that name.
    intro h
    refine ⟨by rw [map_fst_readBy]; exact h.nodup, ?_⟩
    rw [List.forall_mem_map]
    intro assignment hmem
    obtain ⟨key, hkey⟩ := h.known assignment hmem
    refine ⟨key, hkey, (haccepts hmem hkey).2 ⟨?_, h.truths assignment hmem key hkey⟩⟩
    rintro rfl
    exact h.format assignment hmem hkey

/-- Acceptable assignments make the defaults with what is written in the place of some of them. -/
theorem defaultsWith_ofAssignments (h : Acceptable assignments) :
    DefaultsWith assignments
      (Settings.ofAssignments (assignments.map (Assignment.readBy read))) := by
  obtain ⟨hnodup, hall⟩ := (areAssignable_iff_acceptable hread htexts).2 h
  constructor
  · intro assignment hmem key hkey
    -- The value is found by the name of its key, since no name occurs twice.
    have hassigned : assignment.readBy read ∈ assignments.map (Assignment.readBy read) :=
      List.mem_map_of_mem hmem
    obtain ⟨key', hkey', haccepts⟩ := hall _ hassigned
    obtain rfl := SettingKey.name_injective (hkey'.trans hkey.symm)
    refine literal?_ofAssignments (hread assignment.value) (htexts assignment hmem key' hkey)
      haccepts (FileSystem.lookup_eq_some_of_mem hnodup ?_)
    rw [hkey]
    exact hassigned
  · intro key hkey
    rw [← map_fst_readBy read] at hkey
    exact literal?_ofAssignments_of_none (assigned?_eq_none hkey)

/-- What is written decides which settings are made of the defaults, if any are. The reader is gone
from the right side, and with it the format. -/
theorem ofAssignments?_eq_some_iff_acceptable {settings : Settings} :
    Settings.ofAssignments? (assignments.map (Assignment.readBy read)) = some settings ↔
      Acceptable assignments ∧ DefaultsWith assignments settings := by
  rw [Settings.ofAssignments?_eq_some_iff, areAssignable_iff_acceptable hread htexts]
  refine and_congr_right fun h => ?_
  have hdefaults := defaultsWith_ofAssignments hread htexts h
  exact ⟨fun heq => heq ▸ hdefaults, hdefaults.unique⟩

end

/-! ### What the readers hand over -/

/-- The reader of TOML hands over every literal for what it is. -/
theorem Toml.assignments?_isDocument {text : Text}
    (h : IsDocument " = ".toList assignments text) :
    Toml.assignments? text = some (assignments.map (Assignment.readBy Literal.setting)) := by
  rw [Toml.assignments?, Toml.read?_isDocument h, Option.map_some]
  rfl

/-- A text that begins with a key is not blank, so its reader is not skipped. -/
theorem isBlank_eq_false_of_isBareChar {c : Char} (h : isBareChar c = true) (t : Text) :
    Text.isBlank (c :: t) = false := by
  have hprintable := isPrintableAscii_iff.1 (isPrintableAscii_of_isBareChar h)
  have hspace : c ≠ ' ' := ne_of_test h rfl
  have hcode : c.toNat ≠ 0x20 := fun heq => hspace (Char.toNat_inj.1 heq)
  have hblank : Text.isBlankChar c = false := by
    simp only [Text.isBlankChar, Text.blankRanges, List.any_cons, List.any_nil, Bool.or_false,
      Bool.or_eq_false_iff, Bool.and_eq_false_iff, decide_eq_false_iff_not]
    omega
  rw [Text.isBlank, List.all_cons, hblank, Bool.false_and]

/-- The reader of YAML hands over scalars. It refuses keys beyond its limit on their length, which
TOML does not have. -/
theorem Yaml.assignments?_isDocument {text : Text}
    (h : IsDocument ": ".toList assignments text) :
    Yaml.assignments? text =
      if Yaml.KeysFit assignments then
        some (assignments.map (Assignment.readBy fun literal => literal.scalar.setting))
      else none := by
  cases text with
  | nil =>
    -- An empty document is not read at all.
    obtain rfl := eq_nil_of_isDocument h
    rfl
  | cons c text =>
    have hbare := Yaml.beginsWithKey_of_isDocument h c rfl
    rw [Yaml.assignments?, isBlank_eq_false_of_isBareChar hbare,
      Yaml.read?_isDocument h (List.cons_ne_nil c text)]
    simp only [Bool.false_eq_true, if_false]
    split <;> simp [Assignment.entry, Assignment.readBy]

/-- Keys that are too long to be read are none: the names of all keys are short. So the limit makes
no difference for assignments that are acceptable. -/
theorem Acceptable.keysFit (h : Acceptable assignments) : Yaml.KeysFit assignments := by
  intro assignment hmem
  obtain ⟨key, hkey⟩ := h.known assignment hmem
  rw [← hkey]
  cases key <;> decide

/-! ### Files in either format -/

/-- The order of assignments does not matter to whether they are accepted. -/
theorem Acceptable.of_perm {others : List Assignment} (h : Acceptable assignments)
    (hperm : assignments.Perm others) : Acceptable others where
  nodup := (hperm.map Assignment.key).nodup_iff.1 h.nodup
  known assignment hmem := h.known assignment (hperm.mem_iff.2 hmem)
  format assignment hmem := h.format assignment (hperm.mem_iff.2 hmem)
  truths assignment hmem := h.truths assignment (hperm.mem_iff.2 hmem)

/-- Nor does it matter to what they make of the defaults. -/
theorem DefaultsWith.of_perm {others : List Assignment} {settings : Settings}
    (h : DefaultsWith assignments settings) (hperm : assignments.Perm others) :
    DefaultsWith others settings where
  written assignment hmem := h.written assignment (hperm.mem_iff.2 hmem)
  unwritten key hkey := h.unwritten key fun hmem =>
    hkey ((hperm.map Assignment.key).mem_iff.1 hmem)

namespace FileSystem

/-- The file at a path holds the assignments, in the format that its extension stands for. -/
inductive Holds (fs : FileSystem) (path : Text) (assignments : List Assignment) : Prop
  | toml {text : Text} :
      ¬ HasYamlExtension path → fs.read path = .ok (Text.encode text) →
      IsDocument " = ".toList assignments text → Holds fs path assignments
  | yaml {text : Text} :
      HasYamlExtension path → fs.read path = .ok (Text.encode text) →
      IsDocument ": ".toList assignments text → Holds fs path assignments

variable {fs : FileSystem} {path : Text}

/-- A path has one extension at most, so a TOML file is none of YAML: the extension that is found
from the back of the path would have to be two different words. -/
theorem not_hasYamlExtension_of_toml (h : HasExtension path "toml".toList) :
    ¬ HasYamlExtension path := by
  have htoml := (extension?_eq_some_iff (by decide) (by decide)).2 h
  rintro (hyml | hyaml)
  · have hext := (extension?_eq_some_iff (by decide) (by decide)).2 hyml
    cases htoml.symm.trans hext
  · have hext := (extension?_eq_some_iff (by decide) (by decide)).2 hyaml
    cases htoml.symm.trans hext

/-- The text of a file is accepted for what it says, whatever its format. The two readers are used
here for the last time. -/
theorem Holds.exists_text (h : fs.Holds path assignments) (htexts : TextsAreStrings assignments) :
    ∃ text, fs.read path = .ok (Text.encode text) ∧ ∀ settings,
      Settings.ofText? path text = some settings ↔
        Acceptable assignments ∧ DefaultsWith assignments settings := by
  rcases h with @⟨text, hnot, hread, hdocument⟩ | @⟨text, hyaml, hread, hdocument⟩
  · refine ⟨text, hread, fun settings => ?_⟩
    rw [Settings.ofText?, if_neg (isYamlPath_iff.not.2 hnot), Settings.ofToml?_eq,
      Toml.assignments?_isDocument hdocument, Option.bind_some,
      ofAssignments?_eq_some_iff_acceptable Literal.isReadAs_setting htexts]
  · refine ⟨text, hread, fun settings => ?_⟩
    rw [Settings.ofText?, if_pos (isYamlPath_iff.2 hyaml), Settings.ofYaml?_eq,
      Yaml.assignments?_isDocument hdocument]
    by_cases hfits : Yaml.KeysFit assignments
    · rw [if_pos hfits, Option.bind_some,
        ofAssignments?_eq_some_iff_acceptable Literal.isReadAs_scalar htexts]
    · rw [if_neg hfits]
      exact iff_of_false nofun fun hwritten => hfits hwritten.1.keysFit

/-- Reading a file that holds a text is reading that text, and if it is refused the file is
invalid. -/
theorem result_readSettings_of_read {text : Text} (h : fs.read path = .ok (Text.encode text)) :
    (fs.readSettings path).result =
      match Settings.ofText? path text with
      | none => .error (.invalidSettings path)
      | some settings => .ok settings := by
  unfold readSettings
  rw [h]
  dsimp only
  rw [Text.decode?_encode]
  dsimp only
  cases Settings.ofText? path text <;> rfl

/-- A settings file that holds assignments gives settings exactly if they are acceptable, and then
those that are written. -/
theorem readSettings_eq_ok_iff (h : fs.Holds path assignments)
    (htexts : TextsAreStrings assignments) (settings : Settings) :
    (fs.readSettings path).result = .ok settings ↔
      Acceptable assignments ∧ DefaultsWith assignments settings := by
  obtain ⟨text, hread, hsettings⟩ := h.exists_text htexts
  rw [result_readSettings_of_read hread, ← hsettings]
  cases Settings.ofText? path text <;> simp

/-- **A settings file means the same in either format and in any order.** Take a file that holds
assignments, with strings for the textual keys. It is accepted exactly if these are `Acceptable`,
and then gives the defaults with what is written in the place of some of them. Otherwise it is
refused as invalid. Any file with the same assignments, whatever their order and its format, is
accepted with the same settings or refused as well. -/
theorem readSettings_of_holds (h : fs.Holds path assignments)
    (htexts : TextsAreStrings assignments) :
    ((∃ settings, (fs.readSettings path).result = .ok settings) ↔ Acceptable assignments) ∧
      (∀ settings, (fs.readSettings path).result = .ok settings →
        DefaultsWith assignments settings) ∧
      (¬ Acceptable assignments → (fs.readSettings path).result = .error (.invalidSettings path)) ∧
      ∀ (other : FileSystem) (otherPath : Text) (others : List Assignment),
        other.Holds otherPath others → others.Perm assignments → ∀ settings,
          (other.readSettings otherPath).result = .ok settings ↔
            (fs.readSettings path).result = .ok settings := by
  have hiff := readSettings_eq_ok_iff h htexts
  refine ⟨⟨?_, fun hacceptable => ?_⟩, fun settings hok => ((hiff settings).1 hok).2,
    fun hnot => ?_, fun other otherPath others hother hperm settings => ?_⟩
  · rintro ⟨settings, hok⟩
    exact ((hiff settings).1 hok).1
  · exact ⟨_, (hiff _).2 ⟨hacceptable,
      defaultsWith_ofAssignments Literal.isReadAs_setting htexts hacceptable⟩⟩
  · obtain ⟨text, hread, hsettings⟩ := h.exists_text htexts
    rw [result_readSettings_of_read hread]
    cases hsome : Settings.ofText? path text with
    | none => rfl
    | some settings => exact absurd ((hsettings settings).1 hsome).1 hnot
  · -- Both files are read as what is written in them, and its order does not matter.
    have htexts' : TextsAreStrings others := fun assignment hmem =>
      htexts assignment (hperm.mem_iff.1 hmem)
    rw [hiff, readSettings_eq_ok_iff hother htexts']
    exact ⟨fun hwritten => ⟨hwritten.1.of_perm hperm, hwritten.2.of_perm hperm⟩,
      fun hwritten => ⟨hwritten.1.of_perm hperm.symm, hwritten.2.of_perm hperm.symm⟩⟩

/-- Assignments of a string that has to be escaped and of a truth value. -/
def sampleAssignments : List Assignment :=
  [⟨"output".toList, .string "\u00e9\x22\n".toList⟩, ⟨"parallel".toList, .boolean false⟩]

/-- A directory with the assignments in both formats, in different orders. -/
def sampleSettings : FileSystem where
  nodes :=
    [(["a.toml".toList], .file (.ok (Text.encode (Assignment.toml sampleAssignments)))),
      (["a.yml".toList], .file (.ok (Text.encode (Assignment.yaml sampleAssignments.reverse))))]
  workingDirectory := some []
  distinct := by decide
  named := by decide
  storable := by decide
  standing := by simp
  rooted := by
    intro name dir h
    simp at h
    rcases h with h | h <;> exact .inl h.2

/-- Both files hold the assignments, one of them in the opposite order. -/
theorem holds_sampleSettings :
    sampleSettings.Holds "a.toml".toList sampleAssignments ∧
      sampleSettings.Holds "a.yml".toList sampleAssignments.reverse := by
  have htoml : sampleSettings.locate "a.toml".toList = .ok ["a.toml".toList] := by cbv
  have hyaml : sampleSettings.locate "a.yml".toList = .ok ["a.yml".toList] := by cbv
  have hkeys : ∀ assignment ∈ sampleAssignments, Assignment.isBareKey assignment.key = true := by
    decide
  refine ⟨.toml (not_hasYamlExtension_of_toml ⟨[], ['a'], [], by decide, by decide, by simp⟩) ?_
    (isDocument_toml hkeys), .yaml (.inl ⟨[], ['a'], [], by decide, by decide, by simp⟩) ?_
      (isDocument_yaml fun assignment hmem => hkeys assignment (List.mem_reverse.1 hmem))⟩
  · rw [FileSystem.read, htoml]
    rfl
  · rw [FileSystem.read, hyaml]
    rfl

/-- They are read alike: the string has its escaped characters again, and the order does not
show. -/
theorem readSettings_sampleSettings :
    (sampleSettings.readSettings "a.toml".toList).result =
        .ok { output := some "\u00e9\x22\n".toList, parallel := false } ∧
      (sampleSettings.readSettings "a.yml".toList).result =
        .ok { output := some "\u00e9\x22\n".toList, parallel := false } := by
  obtain ⟨htoml, hyaml⟩ := holds_sampleSettings
  have houtput {key : SettingKey} (hkey : key.name = "output".toList) : key = .output :=
    SettingKey.name_injective (show key.name = SettingKey.output.name from hkey)
  have hparallel {key : SettingKey} (hkey : key.name = "parallel".toList) : key = .parallel :=
    SettingKey.name_injective (show key.name = SettingKey.parallel.name from hkey)
  have htexts : TextsAreStrings sampleAssignments := by
    refine List.forall_mem_cons.2 ⟨fun _ _ _ => ⟨_, rfl⟩, List.forall_mem_singleton.2 ?_⟩
    intro key hkey htextual
    cases hparallel hkey
    cases htextual
  have hacceptable : Acceptable sampleAssignments :=
    { nodup := by decide
      known := List.forall_mem_cons.2 ⟨⟨.output, rfl⟩, List.forall_mem_singleton.2 ⟨.parallel, rfl⟩⟩
      format := by decide
      truths := by
        refine List.forall_mem_cons.2 ⟨fun key hkey htextual => ?_,
          List.forall_mem_singleton.2 fun _ _ _ => ⟨_, rfl⟩⟩
        cases houtput hkey
        cases htextual }
  -- Two keys are written, and the others have their defaults.
  have hwritten : DefaultsWith sampleAssignments
      { output := some "\u00e9\x22\n".toList, parallel := false } := by
    constructor
    · refine List.forall_mem_cons.2 ⟨fun key hkey => ?_,
        List.forall_mem_singleton.2 fun key hkey => ?_⟩
      · cases houtput hkey
        rfl
      · cases hparallel hkey
        rfl
    · intro key hkey
      cases key with
      | output | parallel => exact absurd (by decide) hkey
      | _ => rfl
  -- So the first file is read as these settings, and the second one like the first.
  obtain ⟨haccepts, hdefaults, -, hsame⟩ := readSettings_of_holds htoml htexts
  obtain ⟨settings, hok⟩ := haccepts.2 hacceptable
  obtain rfl := (hdefaults settings hok).unique hwritten
  exact ⟨hok, (hsame _ _ _ hyaml (List.reverse_perm _) _).2 hok⟩

end FileSystem

end ImportCensus

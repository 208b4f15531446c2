import ImportCensus.Proofs.CommandLine.Flags
import ImportCensus.Proofs.Text.Search

/-!
# `ImportCensus.Proofs.CommandLine.Written`: how flags are written

A flag is written in one word or in two, and several flags may share a word. `LineForm` has one rule
for each way. Checks on values and on repetitions are not part of it, they are `AreAcceptable`.

* `option_cases`: the words that are options begin with one dash or with two.
* `exists_lineForm`: every list of flags can be written.
* `LineForm.unique`: words spell one list of flags at most.
-/

set_option autoImplicit false

namespace ImportCensus

/-! ### Command lines -/

/-- What the option with a long name does. -/
def longAction? (name : Text) : Option Action :=
  (commandOptions.find? (·.long = name)).map (·.action)

/-- What the option with a short name does. -/
def shortAction? (letter : Char) : Option Action :=
  (commandOptions.find? (·.short = some letter)).map (·.action)

/-- Tests for a word that may be the value of the parameter in front of it. Of the words that begin
with a dash, only the dash itself may. -/
def isValueWord (word : Text) : Bool := word.head? ≠ some '-' || word = ['-']

/-- The flags that letters behind a dash spell, and the parameter whose value is the next word.
Switches may share a word, and a parameter ends it: what is left of the word is the value. -/
inductive ShortsForm : Text → List Flag → Option Parameter → Prop
  | nil : ShortsForm [] [] none
  | thrown {letter : Char} {switch : Switch} {rest : Text} {flags : List Flag}
      {awaited : Option Parameter} :
      shortAction? letter = some (.throwSwitch switch) → ShortsForm rest flags awaited →
      ShortsForm (letter :: rest) (.thrown switch :: flags) awaited
  | attached {letter : Char} {parameter : Parameter} {value : Text} :
      shortAction? letter = some (.set parameter) → value ≠ [] → value.head? ≠ some '=' →
      ShortsForm (letter :: value) [.given parameter value] none
  | assigned {letter : Char} {parameter : Parameter} {value : Text} :
      shortAction? letter = some (.set parameter) →
      ShortsForm (letter :: '=' :: value) [.given parameter value] none
  | awaiting {letter : Char} {parameter : Parameter} :
      shortAction? letter = some (.set parameter) → ShortsForm [letter] [] (some parameter)

/-- The flags that a word spells, and the parameter whose value is the next word. A long name stands
alone, and only short ones can share a word. -/
inductive WordForm : Text → List Flag → Option Parameter → Prop
  | thrown {name : Text} {switch : Switch} :
      longAction? name = some (.throwSwitch switch) →
      WordForm ('-' :: '-' :: name) [.thrown switch] none
  | assigned {name value : Text} {parameter : Parameter} :
      longAction? name = some (.set parameter) →
      WordForm ('-' :: '-' :: (name ++ '=' :: value)) [.given parameter value] none
  | awaiting {name : Text} {parameter : Parameter} :
      longAction? name = some (.set parameter) →
      WordForm ('-' :: '-' :: name) [] (some parameter)
  | shorts {letters : Text} {flags : List Flag} {awaited : Option Parameter} :
      letters ≠ [] → ShortsForm letters flags awaited → WordForm ('-' :: letters) flags awaited

/-- The flags that words spell, where the first of them is the value of the parameter that is
awaited. Two dashes may end the command line. -/
inductive LineForm : Option Parameter → List Text → List Flag → Prop
  | nil : LineForm none [] []
  | closed : LineForm none [['-', '-']] []
  | value {parameter : Parameter} {word : Text} {words : List Text} {flags : List Flag} :
      isValueWord word = true → LineForm none words flags →
      LineForm (some parameter) (word :: words) (.given parameter word :: flags)
  | option {word : Text} {words : List Text} {first rest : List Flag}
      {awaited : Option Parameter} :
      WordForm word first awaited → LineForm awaited words rest →
      LineForm none (word :: words) (first ++ rest)

/-! ### Names of options -/

/-- No option has an empty name, so two dashes alone name none. -/
theorem longAction?_nil : longAction? [] = none := by decide

/-- No option has a dash for its letter. So the words with one dash and those with two are kept
apart by their second character. -/
theorem shortAction?_dash : shortAction? '-' = none := by decide

/-- No long name holds the sign of equality. Behind two dashes the first such sign ends the name. -/
theorem equals_not_mem_of_longAction? {name : Text} {action : Action}
    (h : longAction? name = some action) : '=' ∉ name := by
  have hall : ∀ option ∈ commandOptions, '=' ∉ option.long := by decide
  obtain ⟨option, hfind, -⟩ := Option.map_eq_some_iff.1 h
  have hname : option.long = name := by simpa using List.find?_some hfind
  exact hname ▸ hall option (List.mem_of_find?_eq_some hfind)

/-- Letters that spell flags do not begin with a dash, as that is the letter of no option. -/
theorem ShortsForm.ne_dash {letter : Char} {rest : Text} {flags : List Flag}
    {awaited : Option Parameter} (h : ShortsForm (letter :: rest) flags awaited) :
    letter ≠ '-' := by
  rintro rfl
  have hnone := shortAction?_dash
  cases h <;> simp_all

/-- A word that is no value ends the options, or begins with one dash or with two. These are the
cases in which the parser looks for options. -/
theorem option_cases {word : Text} (h : isValueWord word = false) :
    word = ['-', '-'] ∨ (∃ name, name ≠ [] ∧ word = '-' :: '-' :: name) ∨
      ∃ letter rest, letter ≠ '-' ∧ word = '-' :: letter :: rest := by
  match word with
  | [] => cases h
  | [first] => simp [isValueWord] at h
  | first :: second :: rest =>
    obtain rfl : first = '-' := by
      simpa [isValueWord] using h
    by_cases hsecond : second = '-'
    · by_cases hrest : rest = []
      · exact .inl (by rw [hsecond, hrest])
      · exact .inr (.inl ⟨rest, hrest, by rw [hsecond]⟩)
    · exact .inr (.inr ⟨second, rest, hsecond, rfl⟩)

/-- Every option has a long name, so every flag can be spelled by one. Some options have no
letter. -/
theorem exists_longAction? (flag : Flag) : ∃ name, longAction? name = some flag.action := by
  have hall : ∀ option ∈ commandOptions, longAction? option.long = some option.action := by decide
  cases flag with
  | given parameter value =>
    have hmem : ∃ option ∈ commandOptions, option.action = .set parameter := by
      cases parameter <;> decide
    obtain ⟨option, hmem, haction⟩ := hmem
    exact ⟨option.long, (hall option hmem).trans (congrArg some haction)⟩
  | thrown switch =>
    have hmem : ∃ option ∈ commandOptions, option.action = .throwSwitch switch := by
      cases switch <;> decide
    obtain ⟨option, hmem, haction⟩ := hmem
    exact ⟨option.long, (hall option hmem).trans (congrArg some haction)⟩

/-- All flags can be written, in any order. It does not take an acceptable list: values and
repetitions are checked elsewhere. -/
theorem exists_lineForm (flags : List Flag) : ∃ words, LineForm none words flags := by
  induction flags with
  | nil => exact ⟨[], .nil⟩
  | cons flag flags ih =>
    obtain ⟨words, hform⟩ := ih
    obtain ⟨name, haction⟩ := exists_longAction? flag
    cases flag with
    | given parameter value => exact ⟨_, .option (.assigned haction) hform⟩
    | thrown switch => exact ⟨_, .option (.thrown haction) hform⟩

/-- The word that ends the options spells no flags. Otherwise it could be read in two ways. -/
theorem WordForm.ne_dashes {word : Text} {flags : List Flag} {awaited : Option Parameter}
    (h : WordForm word flags awaited) : word ≠ ['-', '-'] := by
  intro hword
  cases h with
  | thrown hname | awaiting hname =>
    cases hword
    cases longAction?_nil.symm.trans hname
  | assigned => simp at hword
  | shorts _ hform =>
    cases hword
    exact absurd rfl hform.ne_dash

/-! ### Reading in one way -/

section

variable {first second : List Flag} {awaited other : Option Parameter}

/-- Letters spell flags in one way. The first of them is a switch or a parameter, and for a
parameter the sign of equality tells whether it belongs to the value. -/
theorem ShortsForm.unique {letters : Text} (hfirst : ShortsForm letters first awaited)
    (hsecond : ShortsForm letters second other) : first = second ∧ awaited = other := by
  induction hfirst generalizing second with
  | nil =>
    cases hsecond
    exact ⟨rfl, rfl⟩
  | thrown hswitch _ ih =>
    cases hsecond with
    | thrown hagain hrest =>
      cases hswitch.symm.trans hagain
      obtain ⟨rfl, rfl⟩ := ih hrest
      exact ⟨rfl, rfl⟩
    | attached hagain | assigned hagain | awaiting hagain => cases hswitch.symm.trans hagain
  | attached hparameter hne hequals =>
    cases hsecond with
    | thrown hagain => cases hparameter.symm.trans hagain
    | attached hagain =>
      cases hparameter.symm.trans hagain
      exact ⟨rfl, rfl⟩
    | assigned => exact absurd rfl hequals
    | awaiting => exact absurd rfl hne
  | assigned hparameter =>
    cases hsecond with
    | thrown hagain => cases hparameter.symm.trans hagain
    | attached _ _ hequals => exact absurd rfl hequals
    | assigned hagain =>
      cases hparameter.symm.trans hagain
      exact ⟨rfl, rfl⟩
  | awaiting hparameter =>
    cases hsecond with
    | thrown hagain => cases hparameter.symm.trans hagain
    | attached _ hne => exact absurd rfl hne
    | awaiting hagain =>
      cases hparameter.symm.trans hagain
      exact ⟨rfl, rfl⟩

/-- A word spells flags in one way: behind two dashes it is a name up to the sign of equality, and
behind one dash there are letters. -/
theorem WordForm.unique {word : Text} (hfirst : WordForm word first awaited)
    (hsecond : WordForm word second other) : first = second ∧ awaited = other := by
  cases hfirst with
  | thrown hswitch =>
    have hname := equals_not_mem_of_longAction? hswitch
    cases hsecond with
    | thrown hagain =>
      cases hswitch.symm.trans hagain
      exact ⟨rfl, rfl⟩
    | awaiting hagain => cases hswitch.symm.trans hagain
    | assigned => simp at hname
    | shorts _ hform => exact absurd rfl hform.ne_dash
  | awaiting hparameter =>
    have hname := equals_not_mem_of_longAction? hparameter
    cases hsecond with
    | thrown hagain => cases hparameter.symm.trans hagain
    | awaiting hagain =>
      cases hparameter.symm.trans hagain
      exact ⟨rfl, rfl⟩
    | assigned => simp at hname
    | shorts _ hform => exact absurd rfl hform.ne_dash
  | @assigned name value parameter hparameter =>
    have hname := equals_not_mem_of_longAction? hparameter
    -- The word does not show where the name ends, so the second reading is of any word.
    generalize hword : '-' :: '-' :: (name ++ '=' :: value) = word at hsecond
    cases hsecond with
    | thrown hagain | awaiting hagain =>
      cases hword
      have hfree := equals_not_mem_of_longAction? hagain
      simp at hfree
    | @assigned other after _ hagain =>
      have hsplit : name ++ '=' :: value = other ++ '=' :: after := by simpa using hword
      have hfree := equals_not_mem_of_longAction? hagain
      -- Neither name has a sign of equality, so both end at the first one.
      obtain rfl : name = other := by
        rw [← Text.takeWhile_ne_append hname value, hsplit, Text.takeWhile_ne_append hfree after]
      obtain rfl : value = after := by simpa using hsplit
      cases hparameter.symm.trans hagain
      exact ⟨rfl, rfl⟩
    | shorts _ hform =>
      cases hword
      exact absurd rfl hform.ne_dash
  | shorts _ hform =>
    cases hsecond with
    | thrown | awaiting | assigned => exact absurd rfl hform.ne_dash
    | shorts _ hagain => exact hform.unique hagain

/-- Words spell one list of flags at most. So it makes sense to speak of the flags of a command
line. -/
theorem LineForm.unique {words : List Text} (hfirst : LineForm awaited words first)
    (hsecond : LineForm awaited words second) : first = second := by
  induction hfirst generalizing second with
  | nil =>
    cases hsecond
    rfl
  | closed =>
    cases hsecond with
    | closed => rfl
    | option hform _ => exact absurd rfl hform.ne_dashes
  | value _ _ ih =>
    cases hsecond with
    | value _ hrest => rw [ih hrest]
  | option hform _ ih =>
    cases hsecond with
    | closed => exact absurd rfl hform.ne_dashes
    | option hagain hrest =>
      obtain ⟨rfl, rfl⟩ := hform.unique hagain
      rw [ih hrest]

end

end ImportCensus

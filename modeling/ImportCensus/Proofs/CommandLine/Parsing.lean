import ImportCensus.Proofs.CommandLine.Written
import Mathlib.Data.List.TakeWhile

/-!
# `ImportCensus.Proofs.CommandLine.Parsing`: the parser takes what is written

The parser checks a value that is a word of its own only when the next option is met. This does not
matter to what is accepted (`readRest_eq_ok_iff_of_settle`), so between two options its state is
that of the flags so far.

* `exists_form_of_take`, `take_of_form`: a word is taken as an option exactly if it spells flags,
  and then these are taken.
* `Request.parse_eq_ok_iff`: a command line is accepted exactly if its words spell acceptable flags,
  and the request is what these ask for.
* `Request.parse_of_perm`: so flags can be put in another order, each with its value, and can be
  written in another way.
-/

set_option autoImplicit false

namespace ImportCensus

namespace ParseState

variable {state next : ParseState}

/-! ### Nothing pending -/

/-- To store a value is to take the flag that gives it, with the same check for repetitions. -/
theorem store_eq_takeFlag (parameter : Parameter) (value : Text) :
    state.store parameter value = state.takeFlag (.given parameter value) := rfl

/-- Taking a flag concerns neither what is pending nor the end of the options. So these stay as they
are while flags are taken. -/
theorem pending_closed_of_takeFlag {flag : Flag} (h : state.takeFlag flag = .ok next) :
    next.pending = state.pending ∧ next.closed = state.closed := by
  rw [takeFlag] at h
  split at h
  · cases h
  · obtain ⟨request, -, rfl⟩ := map_eq_ok_iff.1 h
    exact ⟨rfl, rfl⟩

/-- Where nothing is pending there is nothing to settle. -/
theorem settle_of_pending_eq_none (h : state.pending = none) : state.settle = .ok state := by
  rw [settle, h]

/-- After settling nothing is pending, and the options have ended if they had before. -/
theorem pending_closed_of_settle (h : state.settle = .ok next) :
    next.pending = none ∧ next.closed = state.closed := by
  unfold settle at h
  split at h
  · next hnone =>
    cases h
    exact ⟨hnone, rfl⟩
  · cases h
  · rw [store_eq_takeFlag] at h
    exact pending_closed_of_takeFlag h

/-- Tests for a state between two options: nothing is pending, and the options have not ended. -/
structure IsReady (state : ParseState) : Prop where
  pending_eq : state.pending = none
  closed_eq : state.closed = false

/-- A state between two options is settled as it is. -/
theorem IsReady.settle_eq (h : state.IsReady) : state.settle = .ok state :=
  settle_of_pending_eq_none h.pending_eq

/-- Settling leads to a state between two options, unless the options have ended. -/
theorem IsReady.of_settle (hopen : state.closed = false) (h : state.settle = .ok next) :
    next.IsReady :=
  ⟨(pending_closed_of_settle h).1, (pending_closed_of_settle h).2.trans hopen⟩

/-- A flag leads from one state between two options to another. -/
theorem IsReady.of_takeFlag {flag : Flag} (hready : state.IsReady)
    (h : state.takeFlag flag = .ok next) : next.IsReady :=
  ⟨(pending_closed_of_takeFlag h).1.trans hready.pending_eq,
    (pending_closed_of_takeFlag h).2.trans hready.closed_eq⟩

/-- So does a list of flags, by one step for each of them. -/
theorem IsReady.of_takeFlags {flags : List Flag} (hready : state.IsReady)
    (h : flags.foldlM takeFlag state = .ok next) : next.IsReady := by
  induction flags generalizing state with
  | nil =>
    cases h
    exact hready
  | cons flag flags ih =>
    obtain ⟨after, hflag, hflags⟩ := bind_eq_ok_iff.1 h
    exact ih (hready.of_takeFlag hflag) hflags

/-- An option without an attached value settles what is pending first. It may as well have been
settled before: settling twice does nothing the second time. -/
theorem takeOption_eq_ok_iff_of_settle {action : Action} :
    state.takeOption action = .ok next ↔
      ∃ base, state.settle = .ok base ∧ base.takeOption action = .ok next := by
  rw [← bind_eq_ok_iff, takeOption]
  cases h : state.settle with
  | error refusal => rfl
  | ok base =>
    show _ ↔ base.takeOption action = _
    rw [takeOption, settle_of_pending_eq_none (pending_closed_of_settle h).1]

/-- So does one with an attached value. A switch has no value, nor have the options for help and for
the version, and for these both sides fail. -/
theorem takeAttached_eq_ok_iff_of_settle {action : Action} {value : Text} :
    state.takeAttached action value = .ok next ↔
      ∃ base, state.settle = .ok base ∧ base.takeAttached action value = .ok next := by
  cases action with
  | throwSwitch switch => simp [takeAttached]
  | refuse refusal => simp [takeAttached]
  | set parameter =>
    rw [← bind_eq_ok_iff, takeAttached]
    cases h : state.settle with
    | error refusal => rfl
    | ok base =>
      show _ ↔ base.takeAttached (.set parameter) value = _
      rw [takeAttached, settle_of_pending_eq_none (pending_closed_of_settle h).1]

/-! ### Words -/

/-- The state in which the next word is the value of a parameter, or any state if there is none. -/
def await (state : ParseState) (awaited : Option Parameter) : ParseState :=
  { state with pending := awaited.map fun parameter => (parameter, none) }

/-- To await nothing leaves a state between two options as it is. -/
theorem await_none (hready : state.IsReady) : state.await none = state := by
  obtain ⟨_, _, _, _⟩ := state
  cases hready.pending_eq
  rfl

/-- The step of the parser at a letter, by what the letter stands for. The letters behind that of a
parameter are its value, without the sign of equality if there is one. -/
theorem takeShorts_cons (letter : Char) (rest : Text) :
    state.takeShorts (letter :: rest) =
      match shortAction? letter with
      | none => .error .unknownArgument
      | some action =>
        match action, rest with
        | .set parameter, '=' :: value => state.takeAttached (.set parameter) value
        | .set parameter, _ :: _ => state.takeAttached (.set parameter) rest
        | action, _ => state.takeOption action >>= fun after => after.takeShorts rest := by
  rw [takeShorts, shortAction?]
  cases commandOptions.find? (·.short = some letter) <;> rfl

/-- A long option without a value: the whole word is the name. -/
theorem takeLong_of_not_mem {name : Text} (h : '=' ∉ name) :
    state.takeLong name =
      match longAction? name with
      | none => .error .unknownArgument
      | some action => state.takeOption action := by
  have hall : ∀ c ∈ name, (c != '=') = true := fun c hc => bne_iff_ne.2 fun heq => h (heq ▸ hc)
  rw [takeLong, longAction?, List.takeWhile_eq_self_iff.2 hall, List.dropWhile_eq_nil_iff.2 hall]
  cases commandOptions.find? (·.long = name) <;> rfl

/-- A long option with a value behind the first sign of equality. The value may hold further
ones. -/
theorem takeLong_append {name : Text} (h : '=' ∉ name) (value : Text) :
    state.takeLong (name ++ '=' :: value) =
      match longAction? name with
      | none => .error .unknownArgument
      | some action => state.takeAttached action value := by
  rw [takeLong, longAction?, Text.takeWhile_ne_append h, Text.dropWhile_ne_append h]
  cases commandOptions.find? (·.long = name) <;> rfl

/-- Options settle what is pending first, whatever their names are. An unknown name is refused
before anything is settled, and then both sides fail. -/
theorem takeLong_eq_ok_iff_of_settle {word : Text} :
    state.takeLong word = .ok next ↔
      ∃ base, state.settle = .ok base ∧ base.takeLong word = .ok next := by
  by_cases hequals : '=' ∈ word
  · obtain ⟨name, value, rfl, hname⟩ := List.eq_append_cons_of_mem hequals
    simp only [takeLong_append hname]
    cases longAction? name with
    | none => simp
    | some action => exact takeAttached_eq_ok_iff_of_settle
  · simp only [takeLong_of_not_mem hequals]
    cases longAction? word with
    | none => simp
    | some action => exact takeOption_eq_ok_iff_of_settle

/-- The first letter of a word settles what is pending, so it may as well have been settled
before. -/
theorem takeShorts_eq_ok_iff_of_settle {letter : Char} {rest : Text} :
    state.takeShorts (letter :: rest) = .ok next ↔
      ∃ base, state.settle = .ok base ∧ base.takeShorts (letter :: rest) = .ok next := by
  simp only [takeShorts_cons]
  cases shortAction? letter with
  | none => simp
  | some action =>
    dsimp only
    split
    · exact takeAttached_eq_ok_iff_of_settle
    · exact takeAttached_eq_ok_iff_of_settle
    · simp only [bind_eq_ok_iff]
      rw [exists_congr fun after => and_congr_left fun _ => takeOption_eq_ok_iff_of_settle]
      grind

section

variable (hready : state.IsReady)

include hready

/-- A parameter without an attached value awaits one, which may be in the next word. -/
theorem takeOption_set (parameter : Parameter) :
    state.takeOption (.set parameter) = .ok (state.await (some parameter)) := by
  rw [takeOption, hready.settle_eq]
  rfl

/-- A switch is taken as a flag at once. -/
theorem takeOption_throwSwitch (switch : Switch) :
    state.takeOption (.throwSwitch switch) = state.takeFlag (.thrown switch) := by
  rw [takeOption, hready.settle_eq]
  rfl

/-- The options for help and for the version end in a refusal, which says what to print instead. -/
theorem takeOption_refuse (refusal : Refusal) :
    state.takeOption (.refuse refusal) = .error refusal := by
  rw [takeOption, hready.settle_eq]
  rfl

/-- A parameter with an attached value is taken as a flag at once. -/
theorem takeAttached_set (parameter : Parameter) (value : Text) :
    state.takeAttached (.set parameter) value = state.takeFlag (.given parameter value) := by
  rw [takeAttached, hready.settle_eq]
  rfl

end

/-- `state.Takes flags awaited next`: the state takes flags and then awaits the value of a
parameter, if there is one to await. -/
def Takes (state : ParseState) (flags : List Flag) (awaited : Option Parameter)
    (next : ParseState) : Prop :=
  ∃ after, flags.foldlM takeFlag state = .ok after ∧ after.await awaited = next

/-- Where nothing is awaited afterwards, to take a single flag is all there is. -/
theorem takes_singleton_iff (hready : state.IsReady) {flag : Flag} :
    state.Takes [flag] none next ↔ state.takeFlag flag = .ok next := by
  rw [Takes, takeFlags_singleton]
  constructor
  · rintro ⟨after, hflag, rfl⟩
    rw [await_none (hready.of_takeFlag hflag)]
    exact hflag
  · intro hflag
    exact ⟨next, hflag, await_none (hready.of_takeFlag hflag)⟩

/-- Flags are taken one after the other, and what is awaited comes after the last of them. -/
theorem takes_cons_iff {flag : Flag} {flags : List Flag} {awaited : Option Parameter} :
    state.Takes (flag :: flags) awaited next ↔
      ∃ after, state.takeFlag flag = .ok after ∧ after.Takes flags awaited next := by
  simp only [Takes, List.foldlM_cons, bind_eq_ok_iff]
  grind

/-- What is attached to a parameter is its value, without the sign of equality in front of it. This
is the case without such a sign, where all the letters are the value. -/
theorem takeShorts_attached {letter : Char} {parameter : Parameter}
    (h : shortAction? letter = some (.set parameter)) {value : Text} (hne : value ≠ [])
    (hequals : value.head? ≠ some '=') :
    state.takeShorts (letter :: value) = state.takeAttached (.set parameter) value := by
  obtain ⟨first, rest, rfl⟩ := List.exists_cons_of_ne_nil hne
  have hfirst : first ≠ '=' := fun heq => hequals (congrArg some heq)
  rw [takeShorts_cons, h]
  simp

/-- Letters that spell flags are taken like these. The induction is over the form: switches are
taken letter by letter, and the other rules end the word. -/
theorem takeShorts_of_form (hready : state.IsReady) {letters : Text} {flags : List Flag}
    {awaited : Option Parameter} (h : ShortsForm letters flags awaited)
    (htakes : state.Takes flags awaited next) : state.takeShorts letters = .ok next := by
  induction h generalizing state with
  | nil =>
    obtain ⟨after, hnone, rfl⟩ := htakes
    cases hnone
    rw [takeShorts, await_none hready]
  | thrown hswitch _ ih =>
    obtain ⟨after, hflag, htakes⟩ := takes_cons_iff.1 htakes
    rw [takeShorts_cons, hswitch]
    dsimp only
    rw [takeOption_throwSwitch hready, hflag]
    exact ih (hready.of_takeFlag hflag) htakes
  | attached hparameter hne hequals =>
    rw [takeShorts_attached hparameter hne hequals, takeAttached_set hready]
    exact (takes_singleton_iff hready).1 htakes
  | assigned hparameter =>
    rw [takeShorts_cons, hparameter]
    show state.takeAttached _ _ = _
    rw [takeAttached_set hready]
    exact (takes_singleton_iff hready).1 htakes
  | awaiting hparameter =>
    obtain ⟨after, hnone, rfl⟩ := htakes
    cases hnone
    rw [takeShorts_cons, hparameter]
    dsimp only
    rw [takeOption_set hready]
    rfl

/-- Letters that are taken spell flags. The induction is over the letters, since there is no form
yet: each step of the parser shows the rule that applies. -/
theorem exists_form_of_takeShorts (hready : state.IsReady) {letters : Text}
    (h : state.takeShorts letters = .ok next) :
    ∃ flags awaited, ShortsForm letters flags awaited ∧ state.Takes flags awaited next := by
  induction letters generalizing state with
  | nil =>
    cases h
    exact ⟨[], none, .nil, next, rfl, await_none hready⟩
  | cons letter rest ih =>
    rw [takeShorts_cons] at h
    split at h
    · cases h
    · next action haction =>
      split at h
      · rw [takeAttached_set hready] at h
        exact ⟨_, _, .assigned haction, (takes_singleton_iff hready).2 h⟩
      · next hequals =>
        rw [takeAttached_set hready] at h
        exact ⟨_, _, .attached haction nofun fun heq => hequals (Option.some.inj heq),
          (takes_singleton_iff hready).2 h⟩
      · next hnothing =>
        obtain ⟨after, hoption, hrest⟩ := bind_eq_ok_iff.1 h
        cases action with
        | refuse refusal =>
          rw [takeOption_refuse hready] at hoption
          cases hoption
        | throwSwitch switch =>
          rw [takeOption_throwSwitch hready] at hoption
          obtain ⟨flags, awaited, hform, htakes⟩ :=
            ih (hready.of_takeFlag hoption) hrest
          exact ⟨_, _, .thrown haction hform, takes_cons_iff.2 ⟨after, hoption, htakes⟩⟩
        | set parameter =>
          -- Nothing is attached, so the value is still to come.
          rw [takeOption_set hready] at hoption
          cases hoption
          cases rest with
          | nil =>
            cases hrest
            exact ⟨_, _, .awaiting haction, state, rfl, rfl⟩
          | cons first rest => exact absurd rfl (hnothing parameter first rest rfl)

section

variable (hopen : state.closed = false)

include hopen

/-- Two dashes end the options and do nothing else. -/
theorem take_end : state.take ['-', '-'] = .ok { state with closed := true } := by
  simp [take, hopen]

/-- Behind two dashes and something else stands a long name. -/
theorem take_long {name : Text} (hname : name ≠ []) :
    state.take ('-' :: '-' :: name) = state.takeLong name := by
  simp [take, hopen]

/-- Behind one dash and something other than a dash stand letters. -/
theorem take_short {letter : Char} (rest : Text) (hletter : letter ≠ '-') :
    state.take ('-' :: letter :: rest) = state.takeShorts (letter :: rest) := by
  simp [take, hopen, hletter]

/-- Every other word is taken as a value. -/
theorem take_valueWord {word : Text} (hvalue : isValueWord word = true) :
    state.take word = state.takeValue word := by
  match word with
  | [] => simp [take, hopen]
  | [first] => simp [take, hopen]
  | first :: second :: rest =>
    have hfirst : first ≠ '-' := by
      simpa [isValueWord] using hvalue
    simp [take, hopen, hfirst]

end

/-- A long option that is taken spells flags. Whether it has a value is seen from the sign of
equality, since no name holds one. -/
theorem exists_form_of_takeLong (hready : state.IsReady) {word : Text}
    (h : state.takeLong word = .ok next) :
    ∃ flags awaited, WordForm ('-' :: '-' :: word) flags awaited ∧
      state.Takes flags awaited next := by
  by_cases hequals : '=' ∈ word
  · obtain ⟨name, value, rfl, hname⟩ := List.eq_append_cons_of_mem hequals
    rw [takeLong_append hname] at h
    split at h
    · cases h
    · next action haction =>
      cases action with
      | set parameter =>
        rw [takeAttached_set hready] at h
        exact ⟨_, _, .assigned haction, (takes_singleton_iff hready).2 h⟩
      | throwSwitch switch => cases h
      | refuse refusal => cases h
  · rw [takeLong_of_not_mem hequals] at h
    split at h
    · cases h
    · next action haction =>
      cases action with
      | set parameter =>
        rw [takeOption_set hready] at h
        cases h
        exact ⟨_, _, .awaiting haction, state, rfl, rfl⟩
      | throwSwitch switch =>
        rw [takeOption_throwSwitch hready] at h
        exact ⟨_, _, .thrown haction, (takes_singleton_iff hready).2 h⟩
      | refuse refusal =>
        rw [takeOption_refuse hready] at h
        cases h

/-- An option that spells flags is taken like these, whichever of the ways of writing them is
used. -/
theorem take_of_form (hready : state.IsReady) {word : Text}
    {flags : List Flag} {awaited : Option Parameter} (h : WordForm word flags awaited)
    (htakes : state.Takes flags awaited next) : state.take word = .ok next := by
  cases h with
  | @thrown name switch hswitch =>
    have hne : name ≠ [] := by
      rintro rfl
      cases longAction?_nil.symm.trans hswitch
    rw [take_long hready.closed_eq hne,
      takeLong_of_not_mem (equals_not_mem_of_longAction? hswitch), hswitch]
    dsimp only
    rw [takeOption_throwSwitch hready]
    exact (takes_singleton_iff hready).1 htakes
  | assigned hparameter =>
    rw [take_long hready.closed_eq (by simp),
      takeLong_append (equals_not_mem_of_longAction? hparameter), hparameter]
    dsimp only
    rw [takeAttached_set hready]
    exact (takes_singleton_iff hready).1 htakes
  | @awaiting name parameter hparameter =>
    obtain ⟨after, hnone, rfl⟩ := htakes
    cases hnone
    have hne : name ≠ [] := by
      rintro rfl
      cases longAction?_nil.symm.trans hparameter
    rw [take_long hready.closed_eq hne,
      takeLong_of_not_mem (equals_not_mem_of_longAction? hparameter), hparameter]
    exact takeOption_set hready parameter
  | shorts hne hform =>
    obtain ⟨letter, rest, rfl⟩ := List.exists_cons_of_ne_nil hne
    rw [take_short hready.closed_eq rest hform.ne_dash]
    exact takeShorts_of_form hready hform htakes

/-- A word that is taken as an option spells flags, or ends the options. There is one case for each
kind of words in `option_cases`. -/
theorem exists_form_of_take (hready : state.IsReady)
    {word : Text} (hword : isValueWord word = false) (h : state.take word = .ok next) :
    (word = ['-', '-'] ∧ { state with closed := true } = next) ∨
      ∃ flags awaited, WordForm word flags awaited ∧ state.Takes flags awaited next := by
  obtain rfl | ⟨name, hname, rfl⟩ | ⟨letter, rest, hletter, rfl⟩ := option_cases hword
  · rw [take_end hready.closed_eq] at h
    exact .inl ⟨rfl, Except.ok.inj h⟩
  · rw [take_long hready.closed_eq hname] at h
    exact .inr (exists_form_of_takeLong hready h)
  · rw [take_short hready.closed_eq rest hletter] at h
    obtain ⟨flags, awaited, hform, htakes⟩ := exists_form_of_takeShorts hready h
    exact .inr ⟨flags, awaited, .shorts (List.cons_ne_nil _ _) hform, htakes⟩

/-- An option settles what is pending first. The word that ends the options is left out, because it
leaves what is pending to the end of the line. -/
theorem take_eq_ok_iff_of_settle (hopen : state.closed = false) {word : Text}
    (hword : isValueWord word = false) (hend : word ≠ ['-', '-']) :
    state.take word = .ok next ↔
      ∃ base, state.settle = .ok base ∧ base.take word = .ok next := by
  have hbase {base : ParseState} (h : state.settle = .ok base) : base.closed = false :=
    (IsReady.of_settle hopen h).closed_eq
  obtain rfl | ⟨name, hname, rfl⟩ | ⟨letter, rest, hletter, rfl⟩ := option_cases hword
  · exact absurd rfl hend
  · rw [take_long hopen hname, takeLong_eq_ok_iff_of_settle]
    refine exists_congr fun base => and_congr_right fun h => ?_
    rw [take_long (hbase h) hname]
  · rw [take_short hopen rest hletter, takeShorts_eq_ok_iff_of_settle]
    refine exists_congr fun base => and_congr_right fun h => ?_
    rw [take_short (hbase h) rest hletter]

/-! ### Reading command lines -/

/-- The request after the rest of a command line. -/
def readRest (state : ParseState) (words : List Text) : Except Refusal Request := do
  let state ← words.foldlM take state
  return (← state.settle).request

variable {words : List Text} {request : Request}

/-- At the end of the line what is pending is settled, and the request is what it was built up
to. -/
theorem readRest_nil_eq_ok_iff :
    state.readRest [] = .ok request ↔ ∃ base, state.settle = .ok base ∧ base.request = request := by
  show (do return (← state.settle).request) = _ ↔ _
  rw [bind_eq_ok_iff]
  simp only [pure, Except.pure, Except.ok.injEq]

/-- The rest of a command line is read word by word. -/
theorem readRest_cons_eq_ok_iff {word : Text} :
    state.readRest (word :: words) = .ok request ↔
      ∃ next, state.take word = .ok next ∧ next.readRest words = .ok request := by
  rw [readRest, List.foldlM_cons, bind_assoc, bind_eq_ok_iff]
  rfl

/-- What is pending when the options end is settled as if they had not. The check for repetitions
does not ask whether the options have ended. -/
theorem readRest_nil_of_closed :
    ({ state with closed := true } : ParseState).readRest [] = state.readRest [] := by
  obtain ⟨request, given, pending, closed⟩ := state
  match pending with
  | none => rfl
  | some (_, none) => rfl
  | some (parameter, some value) =>
    simp only [readRest, List.foldlM_nil, pure_bind, settle, store]
    split
    · rfl
    · cases request.set parameter value <;> rfl

/-- Once the options have ended, no word is accepted: the program takes no arguments besides
options. -/
theorem readRest_of_closed_eq_ok_iff (state : ParseState) :
    ({ state with closed := true } : ParseState).readRest words = .ok request ↔
      words = [] ∧ state.readRest [] = .ok request := by
  cases words with
  | nil => simp [readRest_nil_of_closed]
  | cons word words =>
    refine iff_of_false ?_ (by simp)
    rw [readRest_cons_eq_ok_iff]
    rintro ⟨next, htake, -⟩
    unfold take takeValue at htake
    grind

/-- A word is refused as a value if none is awaited. -/
theorem takeValue_eq_error (hknown : ∀ parameter, state.pending ≠ some (parameter, none))
    (word : Text) : state.takeValue word = .error .unknownArgument := by
  unfold takeValue
  split
  · next parameter hpending => exact absurd hpending (hknown parameter)
  · rfl

/-- A value that is known is stored when the next option is met, or at the end. It could as well be
stored at once. -/
theorem readRest_eq_ok_iff_of_settle (hopen : state.closed = false)
    (hknown : ∀ parameter, state.pending ≠ some (parameter, none)) :
    state.readRest words = .ok request ↔
      ∃ base, state.settle = .ok base ∧ base.readRest words = .ok request := by
  have hbase {base : ParseState} (h : state.settle = .ok base) : base.IsReady := .of_settle hopen h
  have hnil : state.readRest [] = .ok request ↔
      ∃ base, state.settle = .ok base ∧ base.readRest [] = .ok request := by
    rw [readRest_nil_eq_ok_iff]
    refine exists_congr fun base => and_congr_right fun h => ?_
    rw [readRest_nil_eq_ok_iff, (hbase h).settle_eq]
    simp
  cases words with
  | nil => exact hnil
  | cons word words =>
    simp only [readRest_cons_eq_ok_iff]
    by_cases hend : word = ['-', '-']
    · -- Behind the end of the options there are no words, so both are at the end of the line.
      subst hend
      constructor
      · rintro ⟨next, hnext, hrest⟩
        cases (take_end hopen).symm.trans hnext
        obtain ⟨rfl, hdone⟩ := (readRest_of_closed_eq_ok_iff state).1 hrest
        obtain ⟨base, h, hdone⟩ := hnil.1 hdone
        exact ⟨base, h, _, take_end (hbase h).closed_eq,
          (readRest_of_closed_eq_ok_iff base).2 ⟨rfl, hdone⟩⟩
      · rintro ⟨base, h, next, hnext, hrest⟩
        cases (take_end (hbase h).closed_eq).symm.trans hnext
        obtain ⟨rfl, hdone⟩ := (readRest_of_closed_eq_ok_iff base).1 hrest
        exact ⟨_, take_end hopen,
          (readRest_of_closed_eq_ok_iff state).2 ⟨rfl, hnil.2 ⟨base, h, hdone⟩⟩⟩
    · cases hword : isValueWord word with
      | false =>
        simp only [take_eq_ok_iff_of_settle hopen hword hend]
        grind
      | true =>
        -- No value is awaited, neither before nor after.
        refine iff_of_false ?_ ?_
        · rintro ⟨next, hnext, -⟩
          rw [take_valueWord hopen hword, takeValue_eq_error hknown] at hnext
          cases hnext
        · rintro ⟨base, h, next, hnext, -⟩
          rw [take_valueWord (hbase h).closed_eq hword,
            takeValue_eq_error (by simp [(hbase h).pending_eq])] at hnext
          cases hnext

section

variable (hready : state.IsReady)

include hready

/-- Where a value is awaited, the next word has to be one, and then it is as if it had been
attached. An option in its place would leave the parameter without a value. -/
theorem readRest_await_cons_eq_ok_iff {parameter : Parameter} {word : Text} :
    (state.await (some parameter)).readRest (word :: words) = .ok request ↔
      isValueWord word = true ∧ ∃ next, state.takeFlag (.given parameter word) = .ok next ∧
        next.readRest words = .ok request := by
  have hopen : state.closed = false := hready.closed_eq
  have hawaiting : (state.await (some parameter)).closed = false := hopen
  rw [readRest_cons_eq_ok_iff]
  cases hword : isValueWord word with
  | true =>
    -- The word is kept as it is, and what is kept counts as stored.
    let known : ParseState := { state with pending := some (parameter, some word) }
    have htake : (state.await (some parameter)).take word = .ok known := by
      rw [take_valueWord hawaiting hword]
      simp [takeValue, await, hopen, known]
    have hsettle : known.settle = state.takeFlag (.given parameter word) := by
      obtain ⟨_, _, pending, _⟩ := state
      cases hready.pending_eq
      rfl
    have hknown : known.readRest words = .ok request ↔ _ :=
      readRest_eq_ok_iff_of_settle hopen (by simp [known])
    rw [htake, ← hsettle]
    simp [hknown]
  | false =>
    -- A missing value cannot be settled.
    refine iff_of_false ?_ (by simp)
    rintro ⟨next, hnext, hrest⟩
    by_cases hend : word = ['-', '-']
    · subst hend
      cases (take_end hawaiting).symm.trans hnext
      obtain ⟨-, hdone⟩ := (readRest_of_closed_eq_ok_iff (state.await (some parameter))).1 hrest
      obtain ⟨base, hsettle, -⟩ := readRest_nil_eq_ok_iff.1 hdone
      cases hsettle
    · obtain ⟨base, hsettle, -⟩ := (take_eq_ok_iff_of_settle hawaiting hword hend).1 hnext
      cases hsettle

end

/-- A command line that is accepted spells flags, and they are taken one after the other. The
induction is over the words, with the parameter that awaits its value as part of the statement. -/
theorem exists_form_of_readRest (hready : state.IsReady)
    {awaited : Option Parameter} (h : (state.await awaited).readRest words = .ok request) :
    ∃ flags after, LineForm awaited words flags ∧ flags.foldlM takeFlag state = .ok after ∧
      after.request = request := by
  induction words generalizing state awaited with
  | nil =>
    obtain ⟨base, hsettle, hrequest⟩ := readRest_nil_eq_ok_iff.1 h
    cases awaited with
    | some parameter => cases hsettle
    | none =>
      rw [await_none hready, hready.settle_eq] at hsettle
      cases hsettle
      exact ⟨[], state, .nil, rfl, hrequest⟩
  | cons word words ih =>
    cases awaited with
    | some parameter =>
      obtain ⟨hword, next, hflag, hrest⟩ := (readRest_await_cons_eq_ok_iff hready).1 h
      rw [← await_none (hready.of_takeFlag hflag)] at hrest
      obtain ⟨flags, after, hform, hflags, hrequest⟩ := ih (hready.of_takeFlag hflag) hrest
      exact ⟨_, after, .value hword hform, bind_eq_ok_iff.2 ⟨next, hflag, hflags⟩, hrequest⟩
    | none =>
      rw [await_none hready] at h
      obtain ⟨next, htake, hrest⟩ := readRest_cons_eq_ok_iff.1 h
      cases hword : isValueWord word with
      | true =>
        rw [take_valueWord hready.closed_eq hword,
          takeValue_eq_error (by simp [hready.pending_eq])] at htake
        cases htake
      | false =>
        obtain ⟨rfl, rfl⟩ | ⟨first, awaited, hform, middle, hfirst, rfl⟩ :=
          exists_form_of_take hready hword htake
        · obtain ⟨rfl, hdone⟩ := (readRest_of_closed_eq_ok_iff state).1 hrest
          obtain ⟨base, hsettle, hrequest⟩ := readRest_nil_eq_ok_iff.1 hdone
          rw [hready.settle_eq] at hsettle
          cases hsettle
          exact ⟨[], state, .closed, rfl, hrequest⟩
        · obtain ⟨flags, after, hline, hflags, hrequest⟩ := ih (hready.of_takeFlags hfirst) hrest
          refine ⟨first ++ flags, after, .option hform hline, ?_, hrequest⟩
          rw [List.foldlM_append]
          exact bind_eq_ok_iff.2 ⟨middle, hfirst, hflags⟩

/-- A command line that spells flags is accepted if these are taken. The values in words of their
own are where this differs from taking the flags: they are checked later. -/
theorem readRest_of_form (hready : state.IsReady)
    {awaited : Option Parameter} {flags : List Flag} {after : ParseState}
    (h : LineForm awaited words flags) (hflags : flags.foldlM takeFlag state = .ok after) :
    (state.await awaited).readRest words = .ok after.request := by
  induction h generalizing state with
  | nil =>
    cases hflags
    rw [await_none hready, readRest_nil_eq_ok_iff]
    exact ⟨_, hready.settle_eq, rfl⟩
  | closed =>
    cases hflags
    rw [await_none hready, readRest_cons_eq_ok_iff]
    refine ⟨_, take_end hready.closed_eq, (readRest_of_closed_eq_ok_iff _).2 ⟨rfl, ?_⟩⟩
    exact readRest_nil_eq_ok_iff.2 ⟨_, hready.settle_eq, rfl⟩
  | value hword _ ih =>
    obtain ⟨next, hflag, hflags⟩ := bind_eq_ok_iff.1 hflags
    have hnext := hready.of_takeFlag hflag
    have hrest := ih hnext hflags
    rw [await_none hnext] at hrest
    exact (readRest_await_cons_eq_ok_iff hready).2 ⟨hword, next, hflag, hrest⟩
  | option hform _ ih =>
    rw [List.foldlM_append] at hflags
    obtain ⟨middle, hfirst, hrest⟩ := bind_eq_ok_iff.1 hflags
    rw [await_none hready, readRest_cons_eq_ok_iff]
    exact ⟨_, take_of_form hready hform ⟨middle, hfirst, rfl⟩,
      ih (hready.of_takeFlags hfirst) hrest⟩

end ParseState

namespace Request

variable {words : List Text} {request : Request}

/-- **What is accepted.** A command line is accepted exactly if its words spell flags, each about
another option and with a value that is acceptable. The request is what the flags ask for. -/
theorem parse_eq_ok_iff :
    parse words = .ok request ↔
      ∃ flags, LineForm none words flags ∧ AreAcceptable flags ∧ ofFlags flags = request := by
  have hparse : parse words = ParseState.readRest (({} : ParseState).await none) words := rfl
  rw [hparse]
  constructor
  · intro h
    obtain ⟨flags, after, hform, hflags, rfl⟩ := ParseState.exists_form_of_readRest ⟨rfl, rfl⟩ h
    obtain ⟨hacceptable, rfl⟩ := ParseState.takeFlags_eq_ok_iff.1 hflags
    exact ⟨flags, hform, hacceptable, rfl⟩
  · rintro ⟨flags, hform, hacceptable, rfl⟩
    have hflags := ParseState.takeFlags_eq_ok_iff.2 ⟨hacceptable, rfl⟩
    exact ParseState.readRest_of_form ⟨rfl, rfl⟩ hform hflags

/-- **The order of flags does not matter.** Flags that are accepted can be written in any other
order, and in any other way, each with its value. -/
theorem parse_of_perm {flags others : List Flag} (h : AreAcceptable flags)
    (hperm : others.Perm flags) (hform : LineForm none words others) :
    parse words = .ok (ofFlags flags) :=
  parse_eq_ok_iff.2 ⟨others, hform, h.perm hperm, ofFlags_perm h hperm⟩

end Request

end ImportCensus

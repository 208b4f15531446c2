import ImportCensus.CommandLine.Parsing
import ImportCensus.Proofs.Traced
import Mathlib.Data.List.Induction
import Mathlib.Data.List.Nodup

/-!
# `ImportCensus.Proofs.CommandLine.Flags`: what flags ask for

A flag is a parameter with its value, or a switch. The parser takes one flag after the other and
keeps a request and what was given so far. `Request.ofFlags` says at once what a list of flags asks
for: each parameter has the value that is given for it, each switch is thrown that occurs, and
everything else is left out.

* `takeFlag_eq_ok_iff`: one flag is taken if it is new and its value is acceptable.
* `takeFlags_eq_ok_iff`: so a list of flags is taken exactly when no two of them say something about
  the same option and all values are acceptable, and what it asks for is `Request.ofFlags`.
* `Request.ofFlags_perm`: the order of such flags does not matter.
-/

set_option autoImplicit false

namespace ImportCensus

/-- What a command line says about one option: the value of a parameter, or that a switch is
thrown. -/
inductive Flag
  | given (parameter : Parameter) (value : Text)
  | thrown (switch : Switch)
  deriving DecidableEq, Repr

/-- Tests for the values that a parameter may have: a path must not be empty, and the others are
words from a fixed choice or a count. -/
def Parameter.accepts (parameter : Parameter) (value : Text) : Bool :=
  match parameter with
  | .sourceRoot | .targetRoot | .config | .output => !value.isEmpty
  | .format => (ReportFormat.ofKeyword? value).isSome
  | .parallel => (truthOfWord? value).isSome
  | .top => (countOfWord? value).isSome
  | .completions => (Shell.ofKeyword? value).isSome

namespace Flag

/-- What the option of a flag does. -/
def action : Flag → Action
  | given parameter _ => .set parameter
  | thrown switch => .throwSwitch switch

/-- Tests for a flag whose value may be given. -/
def isAcceptable : Flag → Bool
  | given parameter value => parameter.accepts value
  | thrown _ => true

/-- The value of a parameter, if the flag gives one. -/
def valueOf? (parameter : Parameter) : Flag → Option Text
  | given other value => if other = parameter then some value else none
  | thrown _ => none

end Flag

/-- The value that flags give for a parameter. -/
def valueOf? (flags : List Flag) (parameter : Parameter) : Option Text :=
  flags.findSome? (Flag.valueOf? parameter)

/-- What flags ask for. It is written without the parser: every field is looked up on its own, so no
order of the flags is built into it. -/
def Request.ofFlags (flags : List Flag) : Request where
  sourceRoot := valueOf? flags .sourceRoot
  targetRoot := valueOf? flags .targetRoot
  config := valueOf? flags .config
  output := valueOf? flags .output
  format := (valueOf? flags .format).bind ReportFormat.ofKeyword?
  parallel := (valueOf? flags .parallel).bind truthOfWord?
  top := ((valueOf? flags .top).bind countOfWord?).getD Summary.defaultLimit
  completions := (valueOf? flags .completions).bind Shell.ofKeyword?
  skipConfirm := .thrown .skipConfirm ∈ flags
  noOpen := .thrown .noOpen ∈ flags
  sorted := .thrown .sorted ∈ flags
  verbose := .thrown .verbose ∈ flags
  quiet := .thrown .quiet ∈ flags

/-- Tests for flags that a command line may consist of: each says something about another option,
and all values may be given. -/
@[mk_iff]
structure AreAcceptable (flags : List Flag) : Prop where
  nodup : (flags.map Flag.action).Nodup
  all : ∀ flag ∈ flags, flag.isAcceptable = true

/-! ### Values of parameters -/

/-- A flag has a value for the parameter that it gives, and for no other one. -/
theorem Flag.valueOf?_eq_some_iff {flag : Flag} {parameter : Parameter} {value : Text} :
    flag.valueOf? parameter = some value ↔ flag = .given parameter value := by
  cases flag <;> simp [Flag.valueOf?]

section

variable {flags others : List Flag} {parameter : Parameter}

/-- A value that is found comes from a flag that gives it. -/
theorem mem_of_valueOf? {value : Text} (h : valueOf? flags parameter = some value) :
    .given parameter value ∈ flags := by
  obtain ⟨flag, hmem, hvalue⟩ := List.exists_of_findSome?_eq_some h
  exact Flag.valueOf?_eq_some_iff.1 hvalue ▸ hmem

/-- A parameter about which no flag says anything has no value. -/
theorem valueOf?_eq_none (h : .set parameter ∉ flags.map Flag.action) :
    valueOf? flags parameter = none := by
  cases hvalue : valueOf? flags parameter with
  | none => rfl
  | some value => exact absurd (List.mem_map_of_mem (f := Flag.action) (mem_of_valueOf? hvalue)) h

/-- The flags in front win over the last one. For acceptable flags only one of the two has a value,
so it does not matter which of them wins. -/
theorem valueOf?_append_singleton (flag : Flag) :
    valueOf? (flags ++ [flag]) parameter =
      (valueOf? flags parameter).or (flag.valueOf? parameter) := by
  simp [valueOf?, List.findSome?_append]

/-- Where no option occurs twice, a parameter has the value that is given anywhere. So the order of
the flags is gone from the look-up. -/
theorem valueOf?_eq_some_iff (hnodup : (flags.map Flag.action).Nodup) {value : Text} :
    valueOf? flags parameter = some value ↔ .given parameter value ∈ flags := by
  refine ⟨mem_of_valueOf?, fun hmem => ?_⟩
  cases h : valueOf? flags parameter with
  | none =>
    have hnone := List.findSome?_eq_none_iff.1 h _ hmem
    simp [Flag.valueOf?] at hnone
  | some found =>
    -- Both flags are about the same parameter, so they are the same flag.
    have hsame := List.inj_on_of_nodup_map hnodup (mem_of_valueOf? h) hmem rfl
    cases hsame
    rfl

/-- Acceptable flags are so in any order: neither of the two conditions speaks of places. -/
theorem AreAcceptable.perm (h : AreAcceptable flags) (hperm : others.Perm flags) :
    AreAcceptable others :=
  ⟨(hperm.map Flag.action).nodup_iff.2 h.nodup, fun flag hmem => h.all flag (hperm.mem_iff.1 hmem)⟩

/-- One more flag is acceptable if it says something about a new option and its value may be given.
The parser checks just that for each flag it meets. -/
theorem areAcceptable_append_singleton {flag : Flag} :
    AreAcceptable (flags ++ [flag]) ↔
      AreAcceptable flags ∧ flag.action ∉ flags.map Flag.action ∧ flag.isAcceptable = true := by
  rw [areAcceptable_iff, areAcceptable_iff, List.map_append, List.forall_mem_append,
    List.nodup_append_comm]
  simp only [List.map_cons, List.map_nil, List.singleton_append, List.nodup_cons,
    List.forall_mem_singleton]
  tauto

/-- Reordering acceptable flags leaves the values of all parameters as they are, since each of them
is given at most once. -/
theorem valueOf?_perm (h : AreAcceptable flags) (hperm : others.Perm flags) :
    valueOf? others = valueOf? flags := by
  funext parameter
  refine Option.ext fun value => ?_
  rw [valueOf?_eq_some_iff h.nodup, valueOf?_eq_some_iff (h.perm hperm).nodup, hperm.mem_iff]

/-- What flags ask for does not depend on their order, for switches as little as for parameters. -/
theorem Request.ofFlags_perm (h : AreAcceptable flags) (hperm : others.Perm flags) :
    Request.ofFlags others = Request.ofFlags flags := by
  simp only [Request.ofFlags, valueOf?_perm h hperm, hperm.mem_iff]

end

/-! ### Taking flags -/

namespace Request

/-- The request with one more flag, if its value is acceptable. Whether the option is new is checked
elsewhere, since a request does not tell what was given. -/
def withFlag (request : Request) : Flag → Except Refusal Request
  | .given parameter value => request.set parameter value
  | .thrown switch => .ok (request.throwSwitch switch)

variable {flags : List Flag}

/-- A parameter that has no value gets one if that is acceptable. One case stands for the four
paths, which are kept as they are; each of the others has its own table of words. -/
theorem set_ofFlags_eq_ok_iff {parameter : Parameter} {value : Text} {next : Request}
    (hnew : .set parameter ∉ flags.map Flag.action) :
    (ofFlags flags).set parameter value = .ok next ↔
      parameter.accepts value = true ∧ ofFlags (flags ++ [.given parameter value]) = next := by
  have hnone := valueOf?_eq_none hnew
  have hadded (other : Parameter) : valueOf? (flags ++ [.given parameter value]) other = _ :=
    valueOf?_append_singleton _
  cases parameter with
  | sourceRoot | targetRoot | config | output =>
    by_cases hempty : value = [] <;>
      simp [set, Parameter.accepts, ofFlags, hadded, Flag.valueOf?, hnone, hempty, Except.map]
  | format =>
    cases hchoice : ReportFormat.ofKeyword? value <;>
      simp [set, Parameter.accepts, ofFlags, hadded, Flag.valueOf?, hnone, hchoice, Except.map]
  | parallel =>
    cases hchoice : truthOfWord? value <;>
      simp [set, Parameter.accepts, ofFlags, hadded, Flag.valueOf?, hnone, hchoice, Except.map]
  | completions =>
    cases hchoice : Shell.ofKeyword? value <;>
      simp [set, Parameter.accepts, ofFlags, hadded, Flag.valueOf?, hnone, hchoice, Except.map]
  | top =>
    cases hchoice : countOfWord? value <;>
      simp [set, Parameter.accepts, ofFlags, hadded, Flag.valueOf?, hnone, hchoice]

/-- A switch that is thrown last gives the same request as the flags with that switch at their
end. -/
theorem throwSwitch_ofFlags (switch : Switch) :
    (ofFlags flags).throwSwitch switch = ofFlags (flags ++ [.thrown switch]) := by
  have hadded (parameter : Parameter) : valueOf? (flags ++ [.thrown switch]) parameter =
      valueOf? flags parameter :=
    (valueOf?_append_singleton _).trans Option.or_none
  cases switch <;> simp [throwSwitch, ofFlags, hadded]

/-- The request after one more flag is what all flags so far ask for, if the new one may be
added. -/
theorem withFlag_ofFlags_eq_ok_iff {flag : Flag} {next : Request}
    (hnew : flag.action ∉ flags.map Flag.action) :
    (ofFlags flags).withFlag flag = .ok next ↔
      flag.isAcceptable = true ∧ ofFlags (flags ++ [flag]) = next := by
  cases flag with
  | given parameter value => exact set_ofFlags_eq_ok_iff hnew
  | thrown switch => simp [withFlag, throwSwitch_ofFlags, Flag.isAcceptable]

end Request

namespace ParseState

/-- The state after the next flag, where nothing is pending. An option that was given before is
refused, whatever its value is. -/
def takeFlag (state : ParseState) (flag : Flag) : Except Refusal ParseState :=
  if flag.action ∈ state.given then .error .repeated
  else
    (state.request.withFlag flag).map fun request =>
      { state with request := request, given := flag.action :: state.given }

/-- The state in which flags have been taken. -/
def ofFlags (flags : List Flag) : ParseState where
  request := Request.ofFlags flags
  given := (flags.map Flag.action).reverse

variable {flags : List Flag} {flag : Flag} {next : ParseState}

/-- One more flag is taken if its option is new and its value is acceptable, and the state is again
that of a list of flags. This is the step for `takeFlags_eq_ok_iff`. -/
theorem takeFlag_ofFlags_eq_ok_iff :
    (ofFlags flags).takeFlag flag = .ok next ↔
      flag.action ∉ flags.map Flag.action ∧ flag.isAcceptable = true ∧
        ofFlags (flags ++ [flag]) = next := by
  have hgiven : flag.action ∈ (ofFlags flags).given ↔ flag.action ∈ flags.map Flag.action :=
    List.mem_reverse
  -- Options are noted in front of those before them.
  have hadded : ofFlags (flags ++ [flag]) =
      { ofFlags flags with
        request := Request.ofFlags (flags ++ [flag])
        given := flag.action :: (ofFlags flags).given } := by
    simp [ofFlags]
  rw [hadded, takeFlag]
  split
  · next hold => exact iff_of_false nofun fun h => h.1 (hgiven.1 hold)
  · next hnew =>
    have hnew := mt hgiven.2 hnew
    rw [map_eq_ok_iff]
    constructor
    · rintro ⟨request, hrequest, rfl⟩
      obtain ⟨hacceptable, rfl⟩ := (Request.withFlag_ofFlags_eq_ok_iff hnew).1 hrequest
      exact ⟨hnew, hacceptable, rfl⟩
    · rintro ⟨-, hacceptable, hnext⟩
      exact ⟨_, (Request.withFlag_ofFlags_eq_ok_iff hnew).2 ⟨hacceptable, rfl⟩, hnext⟩

/-- Taking a list of one flag is taking that flag. -/
theorem takeFlags_singleton (state : ParseState) :
    [flag].foldlM takeFlag state = state.takeFlag flag := by
  simp only [List.foldlM_cons, List.foldlM_nil, bind_pure]

/-- A list of flags is taken exactly when it is acceptable, and the state tells what it asks for.
The induction is from the back, as a state is known from the flags in front. -/
theorem takeFlags_eq_ok_iff :
    flags.foldlM takeFlag {} = .ok next ↔ AreAcceptable flags ∧ ofFlags flags = next := by
  -- The state is known from the flags so far, so the next one is added at the end.
  induction flags using List.reverseRecOn generalizing next with
  | nil =>
    have hempty : AreAcceptable [] := ⟨List.nodup_nil, nofun⟩
    have hstart : ofFlags [] = {} := by
      simp [ofFlags, Request.ofFlags, valueOf?]
    rw [hstart]
    exact ⟨fun h => ⟨hempty, Except.ok.inj h⟩, fun h => congrArg _ h.2⟩
  | append_singleton flags flag ih =>
    rw [List.foldlM_append, bind_eq_ok_iff, areAcceptable_append_singleton]
    simp only [takeFlags_singleton]
    constructor
    · rintro ⟨state, hflags, hflag⟩
      obtain ⟨hacceptable, rfl⟩ := ih.1 hflags
      obtain ⟨hnew, hvalue, hnext⟩ := takeFlag_ofFlags_eq_ok_iff.1 hflag
      exact ⟨⟨hacceptable, hnew, hvalue⟩, hnext⟩
    · rintro ⟨⟨hacceptable, hnew, hvalue⟩, hnext⟩
      exact ⟨_, ih.2 ⟨hacceptable, rfl⟩, takeFlag_ofFlags_eq_ok_iff.2 ⟨hnew, hvalue, hnext⟩⟩

end ParseState

end ImportCensus

import ImportCensus.Traced

/-!
# `ImportCensus.Proofs.Traced`: results of longer computations

`Traced` is a lawful monad, so the library's laws of `mapM` and `foldlM` apply to it. The theorems
take the result out of a computation, whatever the computation logs:

* `Traced.result_bind_eq_ok_iff`: when a sequence of two computations has a value.
* `Traced.result_map`, `Traced.result_mapM`: a function applied to a result, and a list of
  computations carried out one after the other, are those of `Except`.
* `Traced.result_mapM_settle`: computations whose faults and values are known. The first fault of
  the list ends it, and without faults it gives all values.
-/

set_option autoImplicit false

namespace ImportCensus

/-- A value, unless a fault comes before it. -/
def settle {α : Type} (fault? : Option Fault) (value : α) : Except Fault α :=
  match fault? with
  | some fault => .error fault
  | none => .ok value

/-- Without a fault there is the value. -/
@[simp] theorem settle_none {α : Type} (value : α) : settle none value = .ok value := rfl

/-- A fault takes the place of the value. -/
@[simp] theorem settle_some {α : Type} (fault : Fault) (value : α) :
    settle (some fault) value = .error fault := rfl

/-- Only a computation without fault has a value, and then it is the given one. Later proofs go from
a result to its two parts with this lemma and the next one and do not open the definition. -/
theorem settle_eq_ok_iff {α : Type} {fault? : Option Fault} {value result : α} :
    settle fault? value = .ok result ↔ fault? = none ∧ result = value := by
  cases fault? <;> simp [eq_comm]

/-- The fault of such a result is the one that comes before the value, and there is no other. -/
theorem settle_eq_error_iff {α : Type} {fault? : Option Fault} {value : α} {fault : Fault} :
    settle fault? value = .error fault ↔ fault? = some fault := by
  cases fault? <;> simp

section

variable {α β ε : Type} {first : Except ε α} {next : α → Except ε β}

/-- A sequence of two results has a value exactly when both have one. A longer sequence is taken
apart by using this once for each step. -/
theorem bind_eq_ok_iff {value : β} :
    first >>= next = .ok value ↔ ∃ a, first = .ok a ∧ next a = .ok value := by
  cases first <;> simp [bind, Except.bind]

/-- A sequence of two results fails in the first, or in the second behind it. In the second case the
first one had a value, which is what makes the fault the first of the sequence. -/
theorem bind_eq_error_iff {fault : ε} :
    first >>= next = .error fault ↔
      first = .error fault ∨ ∃ a, first = .ok a ∧ next a = .error fault := by
  cases first <;> simp [bind, Except.bind]

/-- A result to which a function is applied has a value exactly when it had one before. Read from
left to right this finds the result behind something that was computed from it. -/
theorem map_eq_ok_iff {α β ε : Type} {result : Except ε α} {f : α → β} {value : β} :
    result.map f = .ok value ↔ ∃ a, result = .ok a ∧ f a = value := by
  cases result <;> simp [Except.map]

end

namespace Traced

variable {α β γ : Type}

/-- Two computations with the same log and the same result are equal, since nothing else is in
them. -/
theorem eq_of_log_result {a b : Traced α} (hlog : a.log = b.log) (hresult : a.result = b.result) :
    a = b := by
  cases a
  cases b
  simp_all

/-- A computation that is followed by its own value is that computation: the value adds nothing to
the log, and a fault is not followed by anything. -/
theorem andThen_pure (a : Traced α) : andThen a pure = a := by
  unfold andThen
  cases h : a.result with
  | error fault => exact eq_of_log_result rfl h.symm
  | ok value => exact eq_of_log_result (List.append_nil _) h.symm

/-- How a sequence of three computations is bracketed makes no difference. The first fault ends it,
in whichever of them it is, and the logs are joined in the same order. -/
theorem andThen_assoc (a : Traced α) (f : α → Traced β) (g : β → Traced γ) :
    andThen (andThen a f) g = andThen a fun x => andThen (f x) g := by
  unfold andThen
  cases a.result with
  | error fault => rfl
  | ok value =>
    cases h : (f value).result with
    | error fault => simp [h]
    | ok next => simp [h, List.append_assoc]

instance : LawfulMonad Traced := LawfulMonad.mk' Traced
  (fun a => andThen_pure a)
  (fun value f => eq_of_log_result (List.nil_append _) rfl)
  (fun a f g => andThen_assoc a f g)

/-- A function applied to a computation is applied to its result, and the log does not matter. -/
@[simp] theorem result_map (f : α → β) (a : Traced α) : (f <$> a).result = a.result.map f := by
  rw [map_eq_pure_bind, result_bind]
  cases a.result <;> rfl

/-- Two computations in a sequence have a value exactly when both of them do, and then it is that of
the second. The log of the first is not in the statement, so proofs about results need not mention
it. -/
theorem result_bind_eq_ok_iff {first : Traced α} {next : α → Traced β} {value : β} :
    (first >>= next).result = .ok value ↔
      ∃ a, first.result = .ok a ∧ (next a).result = .ok value := by
  rw [result_bind]
  exact bind_eq_ok_iff

/-- The results of a list of computations, in order, as far as the first fault. So the result of a
list can be found from the results of its members, whatever they log. -/
theorem result_mapM (f : α → Traced β) (xs : List α) :
    (xs.mapM f).result = xs.mapM fun x => (f x).result := by
  induction xs with
  | nil => rfl
  | cons x xs ih =>
    rw [List.mapM_cons, List.mapM_cons, result_bind]
    -- The first computation is the same on both sides, so only what follows its value is left.
    congr 1
    funext value
    rw [result_bind, ih]
    rfl

/-- Computations whose faults and values are known, one after the other: the first fault of the list
is the result, and if there is none the values are. -/
theorem result_mapM_settle {f : α → Traced β} {fault? : α → Option Fault} {value : α → β}
    (h : ∀ x, (f x).result = settle (fault? x) (value x)) (xs : List α) :
    (xs.mapM f).result = settle (xs.findSome? fault?) (xs.map value) := by
  rw [result_mapM]
  induction xs with
  | nil => rfl
  | cons x xs ih =>
    rw [List.mapM_cons, h, ih, List.findSome?_cons]
    cases fault? x with
    | some fault => rfl
    | none => cases xs.findSome? fault? <;> rfl

end Traced

end ImportCensus

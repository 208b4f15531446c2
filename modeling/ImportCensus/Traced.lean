import ImportCensus.Event
import ImportCensus.Fault

/-!
# `ImportCensus.Traced`: computations that log events and may fail

A traced computation has a log and a result, which is a value or a fault. In a sequence the logs
add up until the first fault, and that fault is the result; what was logged before it is kept.

- `Traced.result_bind`: results of a sequence are those of `Except`, whatever is logged.
-/

set_option autoImplicit false

namespace ImportCensus

/-- The log and the result of a computation. -/
structure Traced (α : Type) where
  log : List Event
  result : Except Fault α

namespace Traced

variable {α β : Type}

/-- One computation after the other. After a fault nothing else happens. -/
def andThen (first : Traced α) (next : α → Traced β) : Traced β :=
  match first.result with
  | .ok a => ⟨first.log ++ (next a).log, (next a).result⟩
  | .error fault => ⟨first.log, .error fault⟩

instance : Monad Traced where
  pure a := ⟨[], .ok a⟩
  bind := andThen

/-- Logs one event. -/
def logEvent (event : Event) : Traced Unit := ⟨[event], .ok ()⟩

/-- Ends with a fault. -/
def fail (fault : Fault) : Traced α := ⟨[], .error fault⟩

/-- A computation that only gives a value has it as its result. -/
@[simp] theorem result_pure (a : α) : (pure a : Traced α).result = .ok a := rfl

/-- Logging has no result of interest, and it does not fail. -/
@[simp] theorem result_logEvent (event : Event) : (logEvent event).result = .ok () := rfl

/-- The result of two computations in a row is that of their results: the log does not decide
anything. -/
@[simp] theorem result_bind (first : Traced α) (next : α → Traced β) :
    (first >>= next).result = first.result >>= fun a => (next a).result := by
  show (andThen first next).result = _
  unfold andThen
  cases h : first.result <;> rfl

end Traced

end ImportCensus

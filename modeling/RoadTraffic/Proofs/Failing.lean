import Mathlib

/-!
# Steps that may fail

* `bind_eq_ok_iff`/`bind_eq_error_iff`: what becomes of `x >>= f` in `Except ε`.
* `bind_of_ok`/`bind_of_error`: the same in `ExceptT ε (StateM σ)`, where a step that fails leaves a
  state behind.
-/

namespace RoadTraffic

section Except

variable {ε α β : Type} {x : Except ε α} {f : α → Except ε β}

/-- The sequence `x >>= f` succeeds if both steps do. -/
theorem bind_eq_ok_iff {b : β} : x >>= f = .ok b ↔ ∃ a, x = .ok a ∧ f a = .ok b := by
  cases x <;> simp [bind, Except.bind]

/-- If `x >>= f` fails, it was refused at the first step or at the second. -/
theorem bind_eq_error_iff {e : ε} :
    x >>= f = .error e ↔ x = .error e ∨ ∃ a, x = .ok a ∧ f a = .error e := by
  cases x <;> simp [bind, Except.bind]

end Except

section State

variable {ε σ α β : Type} {step : ExceptT ε (StateM σ) α} {next : α → ExceptT ε (StateM σ) β}
  {state state' : σ} {error : ε}

theorem bind_of_ok {a : α} (h : step state = (.ok a, state')) :
    (step >>= next) state = next a state' := by
  show StateT.bind step (ExceptT.bindCont next) state = _
  rw [StateT.bind, h]
  rfl

/-- After a step that failed, `next` is not taken. -/
theorem bind_of_error (h : step state = (.error error, state')) :
    (step >>= next) state = (.error error, state') := by
  show StateT.bind step (ExceptT.bindCont next) state = _
  rw [StateT.bind, h]
  rfl

theorem fst_bind_of_error (h : (step state).1 = .error error) :
    ((step >>= next) state).1 = .error error := by
  rw [bind_of_error (Prod.ext h rfl)]

end State

end RoadTraffic
